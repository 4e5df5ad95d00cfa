import AsciiTerra.Lib.FirstLeft
import AsciiTerra.Delivery
import AsciiTerra.Announcements

/-!
# Whose turn the clients believe it is

A client learns from `GamePlayerTurn` and `GameEndPlayerTurn` whether it has the turn. While the
turn is passed on nobody has it, and disconnects in the middle may pass it on themselves, so
that `ChooseNextPlayerForTurn` tells its own choice to a client that was told already.
-/

set_option autoImplicit false

namespace AsciiTerra

inductive TurnMark
  | started
  | ended
deriving DecidableEq

/-- What a message says about the turn of the client that gets it. -/
def Message.turnMark (msg : Message) : Option TurnMark :=
  match ECustomMetaMSG.ofCode msg.header.id with
  | some .gamePlayerTurn => some .started
  | some .gameEndPlayerTurn => some .ended
  | _ => none

namespace Server
variable {s t u : Server}

open Outcome (Post)

def turnMarks (c : UInt32) (s : Server) : List TurnMark := s.heard Message.turnMark c

/-- `c` was told that its turn has begun, and not yet that it is over. -/
def Playing (c : UInt32) (s : Server) : Prop := (s.turnMarks c).getLast? = some .started

/-- `PlayersList` in its order. -/
def table (s : Server) : List UInt32 := s.gameWorld.playersList.keys

theorem table_nodup (s : Server) : s.table.Nodup := s.gameWorld.playersList.keys_nodup

theorem mem_table {c : UInt32} : c ∈ s.table ↔ c ∈ s.gameWorld.playersList := AList.mem_keys.symm

/-- Of the clients that are still open, at most the current one is playing. -/
def OnlyCurrent (s : Server) : Prop :=
  ∀ c, c ∉ s.closed → s.Playing c → c = s.currentPlayerID ∧ c ≠ 0

def NonePlays (s : Server) : Prop := ∀ c, c ∉ s.closed → ¬ s.Playing c

/-- Of the clients that are still open, exactly the current one is playing. -/
structure TurnKnown (s : Server) : Prop where
  only : s.OnlyCurrent
  holder : s.currentPlayerID ∈ s.table → s.currentPlayerID ∉ s.closed → s.Playing s.currentPlayerID

/-- What is compared from one state to the next. -/
structure Unmarked (s t : Server) : Prop where
  closed : s.closed ⊆ t.closed
  marks : ∀ c, t.turnMarks c = s.turnMarks c

theorem Unmarked.of_sent (hclosed : s.closed ⊆ t.closed) (h : t.sent = s.sent) : Unmarked s t :=
  ⟨hclosed, heard_congr h⟩

theorem Unmarked.refl (s : Server) : Unmarked s s := .of_sent (List.Subset.refl _) rfl

theorem Unmarked.trans (h : Unmarked s t) (h' : Unmarked t u) : Unmarked s u :=
  ⟨List.Subset.trans h.closed h'.closed, fun c => (h'.marks c).trans (h.marks c)⟩

theorem Unmarked.tick (s : Server) : Unmarked s s.tick := .of_sent (List.subset_append_right _ _) rfl

theorem Unmarked.send {msg : Message} (hmsg : msg.turnMark = none) (c : UInt32) :
    Unmarked s (s.send c msg) := by
  refine ⟨List.Subset.refl _, fun d => ?_⟩
  by_cases hd : d = c
  · subst hd
    rw [turnMarks, heard_send_self, hmsg, turnMarks, Option.toList_none, List.append_nil]
  · exact heard_send_ne hd msg s

theorem Unmarked.playing (h : Unmarked s t) (c : UInt32) : t.Playing c ↔ s.Playing c := by
  unfold Playing
  rw [h.marks]

theorem Unmarked.onlyCurrent (h : Unmarked s t) (hcur : t.currentPlayerID = s.currentPlayerID)
    (hs : s.OnlyCurrent) : t.OnlyCurrent := by
  intro c hopen hplaying
  rw [hcur]
  exact hs c (fun hmem => hopen (h.closed hmem)) ((h.playing c).mp hplaying)

theorem Unmarked.nonePlays (h : Unmarked s t) (hs : s.NonePlays) : t.NonePlays :=
  fun c hopen hplaying =>
    hs c (fun hmem => hopen (h.closed hmem)) ((h.playing c).mp hplaying)

theorem Unmarked.turnKnown (h : Unmarked s t) (hcur : t.currentPlayerID = s.currentPlayerID)
    (htable : t.table ⊆ s.table) (hs : s.TurnKnown) : t.TurnKnown := by
  refine ⟨h.onlyCurrent hcur hs.only, fun hmem hopen => ?_⟩
  rw [hcur] at hmem hopen ⊢
  exact (h.playing _).mpr (hs.holder (htable hmem) fun hclosed => hopen (h.closed hclosed))

/-- Changes that neither send nor pass the turn on. -/
theorem TurnKnown.congr (hs : s.TurnKnown) (hclosed : s.closed ⊆ t.closed) (hsent : t.sent = s.sent)
    (hcur : t.currentPlayerID = s.currentPlayerID) (htable : t.table ⊆ s.table) : t.TurnKnown :=
  (Unmarked.of_sent hclosed hsent).turnKnown hcur htable hs

theorem NonePlays.onlyCurrent (h : s.NonePlays) : s.OnlyCurrent :=
  fun c hopen hplaying => absurd hplaying (h c hopen)

theorem OnlyCurrent.nonePlays (h : s.OnlyCurrent) (hclosed : s.currentPlayerID ∈ s.closed) :
    s.NonePlays :=
  fun c hopen hplaying => hopen ((h c hopen hplaying).1 ▸ hclosed)

/-- The turn begins for the current player. -/
theorem OnlyCurrent.sendTurn (h : s.OnlyCurrent) (hne : s.currentPlayerID ≠ 0) :
    (s.send s.currentPlayerID (.ofID .gamePlayerTurn)).TurnKnown := by
  have hmark : (Message.ofID .gamePlayerTurn).turnMark = some .started := rfl
  refine ⟨fun c hopen hplaying => ?_, fun _ _ => ?_⟩
  · by_cases hc : c = s.currentPlayerID
    · exact ⟨hc, hc ▸ hne⟩
    · unfold Playing turnMarks at hplaying
      rw [heard_send_ne hc] at hplaying
      exact h c hopen hplaying
  · change (turnMarks s.currentPlayerID _).getLast? = _
    rw [turnMarks, heard_send_self, hmark]
    simp

/-- The turn of the current player ends. -/
theorem OnlyCurrent.sendEnd (h : s.OnlyCurrent) :
    (s.send s.currentPlayerID (.ofID .gameEndPlayerTurn)).NonePlays := by
  have hmark : (Message.ofID .gameEndPlayerTurn).turnMark = some .ended := rfl
  intro c hopen hplaying
  unfold Playing turnMarks at hplaying
  by_cases hc : c = s.currentPlayerID
  · subst hc
    rw [heard_send_self, hmark] at hplaying
    simp at hplaying
  · rw [heard_send_ne hc] at hplaying
    exact hc (h c hopen hplaying).1

/-- The turn of `c` was passed on, to the first that is left behind `c` at the table. -/
structure PassedOn (c : UInt32) (s t : Server) : Prop where
  turnKnown : t.TurnKnown
  fewer : t.table.Sublist s.table
  next : ∀ before behind, s.table = before ++ c :: behind →
    List.FirstLeft (behind ++ before ++ [c]) t.table t.currentPlayerID

/-- What the callers of the hook rely on here. -/
structure TurnHook (hook : Option UInt32 → Server → Outcome Fault Server) : Prop where
  spec : HookSpec hook
  passed : ∀ s, s.WellFormed → s.currentPlayerID ≠ 0 → s.currentPlayerID ∈ s.closed → s.NonePlays →
    Post (PassedOn s.currentPlayerID s) (hook (some s.currentPlayerID) s)
  other : ∀ c s, c ≠ s.currentPlayerID →
    Post (fun t => Unmarked s t ∧ t.table.Sublist s.table) (hook (some c) s)

/-- The turn began for the current player or, if its socket was closed, for the first that is
left behind it. -/
structure Begun (s t : Server) : Prop where
  turnKnown : t.TurnKnown
  fewer : t.table.Sublist s.table
  first : ∀ before behind, s.table = before ++ s.currentPlayerID :: behind →
    List.FirstLeft (s.currentPlayerID :: (behind ++ before)) t.table t.currentPlayerID

/-- While the enemies play nobody has the turn after `c`, or a disconnect has passed it on to
the player that stands first. -/
def Between (c : UInt32) (s : Server) : Prop :=
  (s.currentPlayerID = c ∧ s.NonePlays) ∨
  (s.TurnKnown ∧ ∃ rest, s.table = s.currentPlayerID :: rest)

theorem Between.unmarked {c : UInt32} (h : Unmarked s t) (hcur : t.currentPlayerID = s.currentPlayerID)
    (htable : t.table = s.table) (hs : Between c s) : Between c t := by
  rcases hs with ⟨hc, hnone⟩ | ⟨hknown, rest, hrest⟩
  · exact .inl ⟨hcur.trans hc, h.nonePlays hnone⟩
  · exact .inr ⟨h.turnKnown hcur (htable ▸ List.Subset.refl _) hknown, rest, by rw [htable, hcur, hrest]⟩

theorem Between.onlyCurrent {c : UInt32} (h : Between c s) : s.OnlyCurrent := by
  rcases h with ⟨_, hnone⟩ | ⟨hknown, _⟩
  · exact hnone.onlyCurrent
  · exact hknown.only

theorem WellFormed.current_mem (h : s.WellFormed) (hne : s.currentPlayerID ≠ 0) :
    s.currentPlayerID ∈ s.table :=
  mem_table.mpr (h.current.resolve_left hne)

theorem table_removePlayer (c : UInt32) (s : Server) : (s.removePlayer c).table.Sublist s.table := by
  change (s.gameWorld.playersList.erase c).keys.Sublist s.gameWorld.playersList.keys
  rw [AList.keys_erase]
  exact List.erase_sublist

theorem place_unique {before behind front back : List UInt32} {c : UInt32}
    (hnodup : (before ++ c :: behind).Nodup) (h : before ++ c :: behind = front ++ c :: back) :
    before = front ∧ behind = back := by
  obtain ⟨-, hbehind, hdisjoint⟩ := List.nodup_append.mp hnodup
  have hplace := (List.append_cons_inj_of_notMem
    (fun hin => hdisjoint c hin c List.mem_cons_self rfl) (List.nodup_cons.mp hbehind).1).mp h
  exact ⟨hplace.1, hplace.2.2⟩

theorem table_of_isEmpty (h : s.gameWorld.playersList.entries.isEmpty = true) : s.table = [] := by
  unfold table AList.keys
  rw [List.isEmpty_iff.mp h]
  rfl

section Hook
variable {hook : Option UInt32 → Server → Outcome Fault Server} (hh : TurnHook hook)
include hh

/-- The rule for messages that are not about the turn. -/
theorem messageAllClients_keeps {J : Server → Prop} {msg : Message} {ignore : Option UInt32}
    (hsame : ∀ t u, Unmarked t u → u.currentPlayerID = t.currentPlayerID → u.table = t.table →
      J t → J u)
    (hhook : ∀ c t, t.WellFormed → t.Accepted c → c ∈ t.closed → J t → Post J (hook (some c) t))
    (hmsg : msg.turnMark = none) (h : s.WellFormed) (hJ : J s) :
    Post J (messageAllClients hook msg ignore s) := by
  refine messageAllClients_post (I := fun st => Looped s st ∧ J st.1)
    ⟨⟨.refl h, .refl _, fun _ => rfl, .refl s⟩, hJ⟩ ?_ (fun st hst => hst.2) (fun st hst =>
      hsame st.1 st.1.eraseNulls (.of_sent (List.Subset.refl _) rfl) rfl rfl hst.2)
  rintro ⟨t, b⟩ i ⟨hlooped, ht⟩
  have htick : J t.tick := hsame _ _ (.tick t) rfl rfl ht
  have hentry : Post (fun st : Server × Bool => J st.1) (messageEntry hook msg ignore (t, b) i) := by
    refine messageEntry_post hh.spec.null ?_ ?_ ?_
    · intro c hi hup
      have hc : t.Accepted c := hlooped.wellFormed.accepted c (mem_ids.mpr (List.mem_of_getElem? hi))
      refine (hhook c t.tick (Continues.tick hlooped.wellFormed).wellFormed hc hup htick).mono ?_
      exact fun u hu _ => hsame u (u.resetAt i) (.of_sent (List.Subset.refl _) rfl) rfl rfl hu
    · intro c _ _ _
      exact hsame _ _ (.send hmsg c) rfl rfl htick
    · intro c _ _ _
      exact htick
  exact (messageEntry_spec hh.spec hlooped).and hentry

/-- A disconnect while the enemies play. -/
theorem between_hook {before : List UInt32} {c d : UInt32} (h : s.WellFormed) (hd : s.Accepted d)
    (hclosed : d ∈ s.closed) (hc : c ≠ 0) (hnodup : (before ++ [c]).Nodup)
    (htable : s.table.Sublist (before ++ [c])) (hs : Between c s) :
    Post (fun t => Between c t ∧ t.table.Sublist (before ++ [c])) (hook (some d) s) := by
  have hne : s.currentPlayerID ≠ 0 := by
    rcases hs with ⟨hcur, _⟩ | ⟨_, rest, hrest⟩
    · exact hcur ▸ hc
    · exact (h.accepted_of_mem (mem_table.mp (hrest ▸ List.mem_cons_self))).ne_zero
  have hmem := h.current_mem hne
  intro t ht
  have hgone := hh.spec.disconnected d s h hd hclosed t ht
  by_cases hcur : d = s.currentPlayerID
  · subst hcur
    have hnone : s.NonePlays := hs.onlyCurrent.nonePlays hclosed
    have hpassed := hh.passed s h hne hclosed hnone t ht
    have hleft : s.currentPlayerID ∉ t.table := fun hin => hgone.left (mem_table.mp hin)
    have hfirst : List.FirstLeft s.table t.table t.currentPlayerID := by
      rcases hs with ⟨hcur, _⟩ | ⟨_, rest, hrest⟩
      · -- the last player, so that the next one is the first
        obtain ⟨first, last, heq, hfirst, hlast⟩ := List.sublist_append_iff.mp htable
        have hlast : last = [c] := by
          rcases List.sublist_singleton.mp hlast with rfl | rfl
          · rw [List.append_nil] at heq
            have hin : c ∈ before := hfirst.subset (heq ▸ hcur ▸ hmem)
            exact absurd rfl ((List.nodup_append.mp hnodup).2.2 c hin c (List.mem_singleton.mpr rfl))
          · rfl
        subst hlast
        have hnext := hpassed.next first [] (by rw [heq, hcur])
        rwa [List.nil_append, hcur, ← heq] at hnext
      · have hnext := hpassed.next [] rest (by rw [hrest]; rfl)
        rw [List.append_nil] at hnext
        rw [hrest]
        exact hnext.skip hleft
    obtain ⟨rest, hrest⟩ := hfirst.eq_cons s.table_nodup hpassed.fewer
    exact ⟨.inr ⟨hpassed.turnKnown, rest, hrest⟩, hpassed.fewer.trans htable⟩
  · obtain ⟨hunmarked, hfewer⟩ := hh.other d s hcur t ht
    have hsame := (hgone.kept hcur).currentPlayerID
    refine ⟨?_, hfewer.trans htable⟩
    rcases hs with ⟨hcur, hnone⟩ | ⟨hknown, rest, hrest⟩
    · exact .inl ⟨hsame.trans hcur, hunmarked.nonePlays hnone⟩
    · refine .inr ⟨hunmarked.turnKnown hsame hfewer.subset hknown, ?_⟩
      have hin : s.currentPlayerID ∈ t.table := hsame ▸ hgone.wellFormed.current_mem (hsame ▸ hne)
      rw [hsame]
      rw [hrest] at hfewer
      exact (List.FirstLeft.head hin).eq_cons (hrest ▸ s.table_nodup) hfewer

theorem sendTurn_begun (h : s.WellFormed) (hne : s.currentPlayerID ≠ 0) (hs : s.OnlyCurrent) :
    Post (Begun s) (s.sendTurn hook) := by
  have hmem := h.current_mem hne
  unfold sendTurn
  split
  · exact Post.of_fault
  · rename_i hfind
    exact absurd (mem_ids.mp (h.present _ (mem_table.mp hmem))) (not_mem_of_findConnection hfind)
  · rename_i c hfind
    have hc := findConnection_eq_some hfind
    subst hc
    have htick := (Unmarked.tick s).onlyCurrent rfl hs
    by_cases hup : s.currentPlayerID ∈ s.tick.closed
    · rw [messageClient_closed hup]
      have hwf := (Continues.tick h).wellFormed
      have hacc := hwf.accepted_of_mem (mem_table.mp hmem)
      refine Post.bind ((hh.passed s.tick hwf hne hup (htick.nonePlays hup)).and
        (hh.spec.disconnected s.currentPlayerID s.tick hwf hacc hup)) fun t ht => Post.of_ok ?_
      obtain ⟨hpassed, hgone⟩ := ht
      have hleft : s.currentPlayerID ∉ t.table := fun hin => hgone.left (mem_table.mp hin)
      exact ⟨hpassed.turnKnown.congr (List.Subset.refl _) rfl rfl (List.Subset.refl _),
        hpassed.fewer, fun before behind htable => (hpassed.next before behind htable).skip hleft⟩
    · rw [messageClient_open hup]
      exact Post.of_ok ⟨htick.sendTurn hne, .refl _, fun _ _ _ => .head hmem⟩

theorem startTurn_begun (h : s.WellFormed) (hne : s.currentPlayerID ≠ 0) (hs : s.OnlyCurrent) :
    Post (Begun s) (s.startTurn hook) := by
  refine Post.bind (sendTurn_begun hh h hne hs) fun t ht u hu => ?_
  obtain ⟨p, -, rfl⟩ := resetTurn_eq_ok.mp hu
  have htable : (({ t with gameWorld := t.gameWorld.modifyPlayer t.currentPlayerID fun _ =>
      { p with currentTurns := p.maxTurns } }).log
      (.turnGiven { p with currentTurns := p.maxTurns })).table = t.table :=
    OrderedMap.keys_modify _ _ _
  refine ⟨ht.turnKnown.congr (List.Subset.refl _) rfl rfl (htable ▸ List.Subset.refl _),
    htable ▸ ht.fewer, fun before behind hsplit => ?_⟩
  rw [htable]
  exact ht.first before behind hsplit

/-- The enemies play after the turn of the last player `c`. -/
theorem makeAITurn_between {before : List UInt32} {c : UInt32} (h : s.WellFormed) (hc : c ≠ 0)
    (htable : s.table = before ++ [c]) (hcur : s.currentPlayerID = c) (hs : s.NonePlays) :
    Post (fun t => Between c t ∧ t.table.Sublist s.table) (s.makeAITurn hook) := by
  intro t hok
  obtain ⟨st, hst, hok⟩ := Outcome.bind_eq_ok.mp hok
  obtain ⟨u, hu, hok⟩ := Outcome.bind_eq_ok.mp hok
  cases hok
  have harmed : s.gameWorld.AllArmed := fun e he => (h.fromTable e he).armed
  have hrelated := aiTurn_aiRelated harmed hst
  have hplayed : ({ s with gameWorld := st.world } : Server).table = before ++ [c] :=
    ((hrelated.players h.keysAreIDs).keys_eq).trans htable
  have hstart : Between c { s with gameWorld := st.world } :=
    .inl ⟨hcur, (Unmarked.of_sent (List.Subset.refl _) rfl).nonePlays hs⟩
  have hnodup : (before ++ [c]).Nodup := htable ▸ s.table_nodup
  have hloop := Post.foldlM (I := fun u => Messaged { s with gameWorld := st.world } u ∧
      Between c u ∧ u.table.Sublist (before ++ [c])) (l := st.enemyActions)
    (f := fun s action => messageAllClients hook (gameAITurnAction action) none s)
    ⟨.refl (Continues.aiRelated h hrelated).wellFormed, hstart, hplayed ▸ .refl _⟩
    fun u action _ ⟨hm, hu⟩ => by
      refine ((messageAllClients_spec hh.spec hm.wellFormed).and (messageAllClients_keeps hh
        (J := fun u => Between c u ∧ u.table.Sublist (before ++ [c])) ?_ ?_ rfl hm.wellFormed hu)).mono
        fun v ⟨hm', hv⟩ => ⟨hm.trans hm', hv⟩
      · exact fun t u hunmarked hcur htable ht => ⟨ht.1.unmarked hunmarked hcur htable, htable ▸ ht.2⟩
      · exact fun d t hwf hd hclosed ht => between_hook hh hwf hd hclosed hc hnodup ht.2 ht.1
  obtain ⟨-, hbetween, hfewer⟩ := hloop u hu
  have hsame : ({ u with gameWorld := removeDeadEnemies st.enemyListDirt u.gameWorld } : Server).table =
      u.table := by
    unfold removeDeadEnemies table
    split
    · rfl
    · rfl
  refine ⟨Between.unmarked (s := u) (.of_sent (List.Subset.refl _) rfl) rfl hsame hbetween, ?_⟩
  rw [hsame, htable]
  exact hfewer

omit hh in
theorem giveToFirst_eq_ok (h : KeysAreIDs s.gameWorld.playersList) (hok : s.giveToFirst = .ok t) :
    ∃ rest, s.table = t.currentPlayerID :: rest ∧ t = { s with currentPlayerID := t.currentPlayerID } := by
  unfold giveToFirst at hok
  split at hok
  · exact nomatch hok
  · rename_i first rest hentries
    cases hok
    have hid : first.2.id = first.1 := h first (by rw [hentries]; exact List.mem_cons_self)
    refine ⟨rest.keys, ?_, rfl⟩
    unfold table AList.keys
    rw [hentries, List.keys_cons, hid]

/-- The player that gets the turn after `c` stands behind it, or first once the enemies have
played. -/
theorem passTurn_onlyCurrent {before behind : List UInt32} {c : UInt32} (h : s.WellFormed) (hc : c ≠ 0)
    (htable : s.table = before ++ c :: behind) (hcur : s.currentPlayerID = c) (hs : s.NonePlays) :
    Post (fun t => t.OnlyCurrent ∧ t.table.Sublist s.table ∧
      ((t.table = s.table ∧ ∃ rest, behind = t.currentPlayerID :: rest) ∨
       (behind = [] ∧ ∃ rest, t.table = t.currentPlayerID :: rest)))
      (s.passTurn hook (some c)) := by
  have hmem : c ∈ s.gameWorld.playersList := mem_table.mp (by rw [htable]; simp)
  obtain ⟨front, v, hentries, -⟩ := OrderedMap.entries_eq_after hmem
  have hkeys : s.table = front.keys ++ c :: (OrderedMap.after c s.gameWorld.playersList).keys := by
    unfold table AList.keys
    rw [hentries, List.keys_append, List.keys_cons]
  have hbehind : behind = (OrderedMap.after c s.gameWorld.playersList).keys := by
    have hnodup := s.table_nodup
    rw [htable] at hkeys hnodup
    exact (place_unique hnodup hkeys).2
  unfold passTurn
  simp only [if_pos hmem]
  split
  · rename_i next rest hafter
    have hid : next.2.id = next.1 := h.keysAreIDs next (OrderedMap.mem_of_mem_after (k := c)
      (by rw [hafter]; exact List.mem_cons_self))
    refine Post.of_ok ⟨?_, .refl _, .inl ⟨rfl, rest.keys, ?_⟩⟩
    · exact NonePlays.onlyCurrent fun d hopen => hs d hopen
    · rw [hbehind, hafter, List.keys_cons, hid]
  · rename_i hafter
    rw [hafter] at hbehind
    subst hbehind
    refine Post.bind ((makeAITurn_between hh h hc htable hcur hs).and (makeAITurn_spec hh.spec h))
      fun t ⟨⟨hbetween, hfewer⟩, hwf, _⟩ u hu => ?_
    obtain ⟨rest, hrest, hgiven⟩ := giveToFirst_eq_ok hwf.wellFormed.keysAreIDs hu
    have htu : u.table = t.table := by rw [hgiven]; rfl
    have hunmarked : Unmarked t u := by
      rw [hgiven]
      exact .of_sent (List.Subset.refl _) rfl
    refine ⟨?_, htu ▸ hfewer, .inr ⟨rfl, rest, htu.trans hrest⟩⟩
    rcases hbetween with ⟨-, hnone⟩ | ⟨hknown, rest', hrest'⟩
    · exact (hunmarked.nonePlays hnone).onlyCurrent
    · have hsame : u.currentPlayerID = t.currentPlayerID :=
        (List.cons.inj (hrest.symm.trans hrest')).1
      exact hunmarked.onlyCurrent hsame hknown.only

theorem chooseNextPlayerForTurn_passedOn (h : s.WellFormed) (hne : s.currentPlayerID ≠ 0)
    (hs : s.NonePlays) : Post (PassedOn s.currentPlayerID s)
      (s.chooseNextPlayerForTurn hook (some s.currentPlayerID)) := by
  have hmem := h.current_mem hne
  have hlog := (Continues.choosing h).wellFormed
  unfold chooseNextPlayerForTurn
  simp only
  split
  · rename_i hempty
    have hnil : s.table = [] := table_of_isEmpty hempty
    exact absurd hmem (by rw [hnil]; exact List.not_mem_nil)
  · obtain ⟨before, behind, htable⟩ := List.append_of_mem hmem
    refine Post.bind ((passTurn_onlyCurrent hh hlog hne htable rfl hs).and
      (passTurn_spec hh.spec hlog _)) fun t ⟨⟨honly, hfewer, hplace⟩, ht, _, _, hcur⟩ => ?_
    refine (startTurn_begun hh ht.wellFormed (ht.wellFormed.accepted_of_mem hcur).ne_zero
      honly).mono fun u hu => ⟨hu.turnKnown, hu.fewer.trans hfewer, fun front back hsplit => ?_⟩
    have hnodup := s.table_nodup
    rw [htable] at hnodup hsplit
    obtain ⟨rfl, rfl⟩ := place_unique hnodup hsplit
    rcases hplace with ⟨hkeys, rest, hrest⟩ | ⟨hnil, rest, hrest⟩
    · -- the player behind `c`
      have hfirst := hu.first (before ++ [s.currentPlayerID]) rest (by
        rw [hkeys]
        change s.table = _
        rw [htable, hrest]
        simp)
      rw [hrest]
      simpa using hfirst
    · -- the first player at the table
      have hfirst := hu.first [] rest hrest
      rw [List.append_nil, ← hrest] at hfirst
      obtain ⟨rest', hrest'⟩ := hfirst.eq_cons t.table_nodup hu.fewer
      have hwhole : s.table = behind ++ before ++ [s.currentPlayerID] := by
        rw [htable, hnil, List.nil_append]
      have hsub := hu.fewer.trans hfewer
      rw [hrest'] at hsub ⊢
      rw [← hwhole]
      exact .of_cons s.table_nodup hsub

/-- The first turn of all. -/
theorem chooseNextPlayerForTurn_first (h : s.WellFormed) (hs : s.NonePlays) :
    Post TurnKnown (s.chooseNextPlayerForTurn hook none) := by
  unfold chooseNextPlayerForTurn
  simp only
  split
  · rename_i hempty
    refine Post.of_ok ⟨NonePlays.onlyCurrent fun c hopen => hs c hopen, fun hmem _ => ?_⟩
    rw [table_of_isEmpty hempty] at hmem
    exact nomatch hmem
  · have hlog := (Continues.choosing h).wellFormed
    intro u hok
    obtain ⟨t, hgive, hok⟩ := Outcome.bind_eq_ok.mp hok
    obtain ⟨ht, -, -, hcur⟩ := giveToFirst_spec hlog t hgive
    obtain ⟨-, -, hgiven⟩ := giveToFirst_eq_ok hlog.keysAreIDs hgive
    have hnone : t.NonePlays := by
      rw [hgiven]
      exact fun c hopen => hs c hopen
    exact (startTurn_begun hh ht.wellFormed (ht.wellFormed.accepted_of_mem hcur).ne_zero
      hnone.onlyCurrent u hok).turnKnown

end Hook

theorem onClientDisconnect_turnHook (n : Nat) : TurnHook (onClientDisconnect n) := by
  induction n with
  | zero =>
    exact ⟨onClientDisconnect_spec 0, fun _ _ _ _ _ => Post.of_deep, fun _ _ _ => Post.of_deep⟩
  | succ n ih =>
    refine ⟨onClientDisconnect_spec (n + 1), fun s h hne hclosed hs => ?_, fun c s hne => ?_⟩
    · have hmem := mem_table.mp (h.current_mem hne)
      have hentries : s.gameWorld.playersList.entries ≠ [] := by
        obtain ⟨v, hv⟩ := OrderedMap.mem_iff_lookup.mp hmem
        exact List.ne_nil_of_mem (OrderedMap.mem_entries_of_lookup hv)
      unfold onClientDisconnect
      rw [if_pos hmem, if_pos rfl]
      refine Post.bind ((chooseNextPlayerForTurn_passedOn ih h hne hs).and
        (chooseNextPlayerForTurn_spec ih.spec h _)) fun t hchosen => Post.of_ok ?_
      obtain ⟨ht, -, -, hpassed, -⟩ := hchosen
      obtain ⟨hpassed, hopen⟩ := hpassed hentries
      have hother : t.currentPlayerID ≠ s.currentPlayerID := fun heq => hopen (heq ▸ hclosed)
      have hremoved := table_removePlayer s.currentPlayerID t
      refine ⟨ht.turnKnown.congr (List.Subset.refl _) rfl rfl hremoved.subset,
        hremoved.trans ht.fewer, fun before behind htable => ?_⟩
      exact (ht.next before behind htable).subset hremoved.subset
        (mem_table.mpr (AList.mem_erase.mpr ⟨hother, hpassed.mem⟩))
    · by_cases hmem : c ∈ s.gameWorld.playersList
      · rw [onClientDisconnect_of_ne hmem hne]
        exact Post.of_ok ⟨.of_sent (List.Subset.refl _) rfl, table_removePlayer c s⟩
      · rw [onClientDisconnect_of_not_mem hmem]
        exact Post.of_ok ⟨.refl s, .refl _⟩

end Server

end AsciiTerra
