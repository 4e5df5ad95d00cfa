import AsciiTerra.ClientStream

/-!
# What reaches the clients

A message to one client reaches it if its socket is still open afterwards, and a broadcast
reaches every such client exactly once, whatever `OnClientDisconnect` does meanwhile. The calls
of it only send turns and actions of the enemies.
-/

set_option autoImplicit false

namespace AsciiTerra

namespace Server
variable {s t u : Server} {β : Type}

open Outcome (Post)

/-- Everything sent from `s` to `t` meets the condition, and sockets only close. -/
structure Said (Q : UInt32 → Message → Prop) (s t : Server) : Prop where
  closed : s.closed ⊆ t.closed
  sent : ∃ new, t.sent = s.sent ++ new ∧ ∀ m ∈ new, Q m.1 m.2

variable {Q R : UInt32 → Message → Prop}

theorem Said.of_eq (hclosed : s.closed ⊆ t.closed) (h : t.sent = s.sent) : Said Q s t :=
  ⟨hclosed, [], by simp [h], by simp⟩

theorem Said.refl (s : Server) : Said Q s s := .of_eq (List.Subset.refl _) rfl

theorem Said.trans (h : Said Q s t) (h' : Said Q t u) : Said Q s u := by
  obtain ⟨hclosed, new, hnew, hQ⟩ := h
  obtain ⟨hclosed', new', hnew', hQ'⟩ := h'
  refine ⟨List.Subset.trans hclosed hclosed', new ++ new', ?_, fun m hm => ?_⟩
  · rw [hnew', hnew, List.append_assoc]
  · rcases List.mem_append.mp hm with hm | hm
    · exact hQ m hm
    · exact hQ' m hm

theorem Said.mono (h : Said Q s t) (hQR : ∀ c msg, Q c msg → R c msg) : Said R s t := by
  obtain ⟨hclosed, new, hnew, hQ⟩ := h
  exact ⟨hclosed, new, hnew, fun m hm => hQR _ _ (hQ m hm)⟩

/-- Changes of the server that neither send nor close a socket. -/
theorem Said.silent (h : Said Q s t) (hclosed : u.closed = t.closed) (hsent : u.sent = t.sent) :
    Said Q s u :=
  h.trans (.of_eq (hclosed ▸ List.Subset.refl _) hsent)

theorem Said.before (h : Said Q t u) (hclosed : t.closed = s.closed) (hsent : t.sent = s.sent) :
    Said Q s u :=
  ((Said.refl s).silent hclosed hsent).trans h

theorem Said.send (h : Said Q s t) {c : UInt32} {msg : Message} (hmsg : Q c msg) :
    Said Q s (t.send c msg) := by
  refine h.trans ⟨List.Subset.refl _, [(c, msg)], rfl, fun m hm => ?_⟩
  rw [List.mem_singleton.mp hm]
  exact hmsg

theorem said_connected (client : Option UInt32) (s : Server) : Said Q s (connected client s).2 := by
  cases client with
  | none => exact .refl s
  | some c => exact .of_eq (List.subset_append_right _ _) rfl

/-- What the calls of `OnClientDisconnect` send. -/
inductive TurnTalk (c : UInt32) : Message → Prop
  | turn : TurnTalk c (.ofID .gamePlayerTurn)
  | enemy (action : EnemyAction) : TurnTalk c (gameAITurnAction action)

section Hook
variable {hook : Option UInt32 → Server → Outcome Fault Server}
variable (hh : ∀ client s, Post (Said Q s) (hook client s))
include hh

theorem messageClient_said {c : UInt32} {msg : Message} (hmsg : Q c msg) :
    Post (Said Q s) (messageClient hook (some c) msg s) := by
  by_cases hup : c ∈ s.tick.closed
  · rw [messageClient_closed hup]
    refine Post.bind (hh (some c) s.tick) fun t ht => Post.of_ok ?_
    exact (said_connected (some c) s).trans (ht.silent rfl rfl)
  · rw [messageClient_open hup]
    exact Post.of_ok ((said_connected (some c) s).send hmsg)

theorem messageAllClients_said {msg : Message} (hmsg : ∀ c, Q c msg) (ignore : Option UInt32) :
    Post (Said Q s) (messageAllClients hook msg ignore s) := by
  have hloop : Post (fun st : Server × Bool => Said Q s st.1)
      ((List.range s.deqConnection.length).foldlM (messageEntry hook msg ignore) (s, false)) := by
    refine Post.foldlM (.refl s) fun st i _ hst => ?_
    have hconnected : ∀ client, Said Q s (connected client st.1).2 :=
      fun client => hst.trans (said_connected client st.1)
    unfold messageEntry
    split
    · exact Post.of_fault
    · simp only
      split
      · refine Post.of_ok ?_
        split
        · exact (hconnected _).send (hmsg _)
        · exact hconnected _
      · refine Post.bind (hh _ _) fun t ht => ?_
        split
        · exact Post.of_ok ((hconnected _).trans (ht.silent rfl rfl))
        · exact Post.of_fault
  refine Post.bind hloop fun st hst => Post.of_ok ?_
  split
  · exact hst.silent rfl rfl
  · exact hst

variable (hturn : ∀ c msg, TurnTalk c msg → Q c msg)
include hturn

theorem makeAITurn_said : Post (Said Q s) (s.makeAITurn hook) := by
  refine Post.bind (P := fun _ => True) (fun _ _ => trivial) fun st _ => ?_
  have hworld : Said Q s { s with gameWorld := st.world } := (Said.refl s).silent rfl rfl
  refine Post.bind (Post.foldlM hworld fun t action _ ht => ?_) fun t ht =>
    Post.of_ok (ht.silent rfl rfl)
  exact (messageAllClients_said hh (fun c => hturn c _ (.enemy action)) none).mono fun _ => ht.trans

theorem startTurn_said : Post (Said Q s) (s.startTurn hook) := by
  have hsend : Post (Said Q s) (s.sendTurn hook) := by
    unfold sendTurn
    split
    · exact Post.of_fault
    · exact Post.of_ok (.refl s)
    · exact messageClient_said hh (hturn _ _ .turn)
  refine Post.bind hsend fun t ht u hu => ?_
  obtain ⟨p, -, rfl⟩ := resetTurn_eq_ok.mp hu
  exact ht.silent rfl rfl

omit hh hturn in
theorem giveToFirst_said : Post (Said Q s) s.giveToFirst := by
  unfold giveToFirst
  split
  · exact Post.of_fault
  · exact Post.of_ok ((Said.refl s).silent rfl rfl)

theorem chooseNextPlayerForTurn_said (client : Option UInt32) :
    Post (Said Q s) (s.chooseNextPlayerForTurn hook client) := by
  have hlog : Said Q s (s.log .choosing) := (Said.refl s).silent rfl rfl
  unfold chooseNextPlayerForTurn
  simp only
  split
  · exact Post.of_ok hlog
  · have hpass : Post (Said Q (s.log .choosing)) ((s.log .choosing).passTurn hook client) := by
      unfold passTurn
      split
      · exact giveToFirst_said
      · split
        · split
          · exact Post.of_ok ((Said.refl _).silent rfl rfl)
          · exact Post.bind (makeAITurn_said hh hturn) fun t ht =>
              giveToFirst_said.mono fun _ => ht.trans
        · exact Post.of_fault
    refine Post.bind hpass fun t ht => ?_
    exact (startTurn_said hh hturn).mono fun _ hu => (hlog.trans ht).trans hu

end Hook

theorem onClientDisconnect_said (hturn : ∀ c msg, TurnTalk c msg → Q c msg) (n : Nat)
    (client : Option UInt32) (s : Server) : Post (Said Q s) (onClientDisconnect n client s) := by
  induction n generalizing client s with
  | zero => exact Post.of_deep
  | succ n ih =>
    cases client with
    | none => exact Post.of_fault
    | some c =>
      unfold onClientDisconnect
      split
      · have hpassed : Post (Said Q s) (if c = s.currentPlayerID then
            s.chooseNextPlayerForTurn (onClientDisconnect n) (some c) else .ok s) := by
          split
          · exact chooseNextPlayerForTurn_said ih hturn _
          · exact Post.of_ok (.refl s)
        exact Post.bind hpassed fun t ht => Post.of_ok (ht.silent rfl rfl)
      · exact Post.of_ok (.refl s)

/-- What client `c` has been sent, as far as `g` reads it. -/
def heard (g : Message → Option β) (c : UInt32) (s : Server) : List β :=
  (s.stream c).filterMap g

variable {g : Message → Option β}

theorem heard_congr (h : t.sent = s.sent) (c : UInt32) : t.heard g c = s.heard g c := by
  rw [heard, heard, stream_congr h]

theorem heard_send_self (c : UInt32) (msg : Message) (s : Server) :
    (s.send c msg).heard g c = s.heard g c ++ (g msg).toList := by
  rw [heard, stream_send_self, List.filterMap_append, heard]
  cases hg : g msg <;> simp [hg]

theorem heard_send_ne {c e : UInt32} (h : e ≠ c) (msg : Message) (s : Server) :
    (s.send c msg).heard g e = s.heard g e := by
  rw [heard, stream_send_ne h, heard]

theorem Said.heard {c : UInt32} (h : Said Q s t) (hQ : ∀ msg, Q c msg → g msg = none) :
    t.heard g c = s.heard g c := by
  obtain ⟨-, new, hnew, hall⟩ := h
  have hsilent : ((new.filter fun m => m.1 = c).map Prod.snd).filterMap g = [] := by
    rw [List.filterMap_eq_nil_iff]
    intro msg hmsg
    obtain ⟨m, hm, rfl⟩ := List.mem_map.mp hmsg
    obtain ⟨hm, hc⟩ := List.mem_filter.mp hm
    exact hQ _ (of_decide_eq_true hc ▸ hall m hm)
  unfold Server.heard stream
  rw [hnew, List.filter_append, List.map_append, List.filterMap_append, hsilent, List.append_nil]

/-- Turns and actions of the enemies are not read. -/
def Deaf (g : Message → Option β) : Prop := ∀ c msg, TurnTalk c msg → g msg = none

theorem Said.unheard (hg : Deaf g) (h : Said TurnTalk s t) (c : UInt32) :
    t.heard g c = s.heard g c :=
  h.heard fun msg hmsg => hg c msg hmsg

/-- `e` is among the first `k` entries of the list that a broadcast goes over. -/
def Told (s : Server) (k : Nat) (e : UInt32) : Prop := ∃ j < k, s.deqConnection[j]? = some (some e)

theorem Told.mem {k : Nat} {e : UInt32} (h : Told s k e) : e ∈ s.ids := by
  obtain ⟨j, _, hj⟩ := h
  exact mem_ids.mpr (List.mem_of_getElem? hj)

theorem told_length {e : UInt32} (h : e ∈ s.ids) : Told s s.deqConnection.length e := by
  obtain ⟨j, hj⟩ := List.mem_iff_getElem?.mp (mem_ids.mp h)
  exact ⟨j, (List.getElem?_eq_some_iff.mp hj).1, hj⟩

theorem told_succ {k : Nat} {e : UInt32} :
    Told s (k + 1) e ↔ Told s k e ∨ s.deqConnection[k]? = some (some e) := by
  constructor
  · rintro ⟨j, hj, hje⟩
    rcases Nat.lt_succ_iff_lt_or_eq.mp hj with hj | rfl
    · exact .inl ⟨j, hj, hje⟩
    · exact .inr hje
  · rintro (⟨j, hj, hje⟩ | hk)
    · exact ⟨j, Nat.lt_succ_of_lt hj, hje⟩
    · exact ⟨k, Nat.lt_succ_self k, hk⟩

theorem index_unique {l : List (Option UInt32)} (h : l.reduceOption.Nodup) {j k : Nat} {e : UInt32}
    (hj : l[j]? = some (some e)) (hk : l[k]? = some (some e)) : j = k := by
  induction l generalizing j k with
  | nil => exact nomatch hj
  | cons a l ih =>
    have htail : l.reduceOption.Nodup := by
      cases a with
      | none => exact h
      | some a => exact (List.nodup_cons.mp h).2
    have hfirst : ∀ i : Nat, a = some e → l[i]? ≠ some (some e) := by
      rintro i rfl hi
      exact (List.nodup_cons.mp h).1 (List.reduceOption_mem_iff.mpr (List.mem_of_getElem? hi))
    cases j with
    | zero =>
      cases k with
      | zero => rfl
      | succ k => exact absurd hk (hfirst k (Option.some.inj hj))
    | succ j =>
      cases k with
      | zero => exact absurd hj (hfirst j (Option.some.inj hk))
      | succ k => rw [ih htail hj hk]

/-- What client `e` has been sent when the broadcast from `s` has gone over `k` entries. -/
structure Reaching (g : Message → Option β) (msg : Message) (ignore : Option UInt32) (s : Server)
    (k : Nat) (st : Server × Bool) : Prop where
  looped : Looped s st
  reached : ∀ e, e ∉ st.1.closed → Told s k e → some e ≠ ignore →
    st.1.heard g e = s.heard g e ++ (g msg).toList
  others : ∀ e, e ∉ st.1.closed ∨ e ∉ s.ids → (Told s k e → some e = ignore) →
    st.1.heard g e = s.heard g e

theorem Reaching.start (h : s.WellFormed) (msg : Message) (ignore : Option UInt32) :
    Reaching g msg ignore s 0 (s, false) where
  looped := ⟨.refl h, .refl _, fun _ => rfl, .refl s⟩
  reached := by
    rintro e - ⟨j, hj, _⟩
    exact absurd hj (Nat.not_lt_zero j)
  others _ _ _ := rfl

section Hook
variable {hook : Option UInt32 → Server → Outcome Fault Server} (hh : HookSpec hook)
include hh

theorem messageClient_heard {c : UInt32} {msg : Message} (h : s.WellFormed) (hc : s.Accepted c) :
    Post (fun t => c ∉ t.closed → t.heard g c = s.heard g c ++ (g msg).toList)
      (messageClient hook (some c) msg s) := by
  intro t hok hopen
  rcases messageClient_cases hh h hc hok with ⟨_, rfl⟩ | ⟨hup, u, _, hu, rfl⟩
  · rw [heard_send_self, heard_congr (s := s) (t := s.tick) rfl]
  · exact absurd (hu.closed hup) hopen

variable (hq : ∀ client s, Post (Said TurnTalk s) (hook client s)) (hg : Deaf g)
include hq hg

theorem Reaching.next {msg : Message} {ignore : Option UInt32} {k : Nat} {u : Server} {b : Bool}
    (h : Reaching g msg ignore s k (u, b)) (hs : s.WellFormed) :
    Post (Reaching g msg ignore s (k + 1)) (messageEntry hook msg ignore (u, b) k) := by
  -- the entry was the same when the broadcast began, and no entry before it is of this client
  have hentry : ∀ c, u.deqConnection[k]? = some (some c) →
      s.deqConnection[k]? = some (some c) ∧ ¬ Told s k c := by
    intro c hc
    obtain ⟨a, ha, hac⟩ := h.looped.blanked.flip.getElem?_eq_some hc
    have hk : s.deqConnection[k]? = some (some c) := by
      rcases hac with rfl | hnone
      · exact ha
      · exact nomatch hnone
    refine ⟨hk, ?_⟩
    rintro ⟨j, hj, hjc⟩
    exact absurd (index_unique hs.distinct hjc hk) (Nat.ne_of_lt hj)
  have hnext : ∀ c e, u.deqConnection[k]? = some (some c) → (Told s (k + 1) e ↔ Told s k e ∨ e = c) := by
    intro c e hc
    rw [told_succ, (hentry c hc).1, Option.some_inj, Option.some_inj]
    exact or_congr_right eq_comm
  have hlater : u.closed ⊆ u.tick.closed := List.subset_append_right _ _
  refine ((messageEntry_spec hh h.looped).and (messageEntry_post
    (I := fun st' => Looped s st' → Reaching g msg ignore s (k + 1) st') hh.null ?_ ?_ ?_)).mono
    fun st' hst' => hst'.2 hst'.1
  · -- a closed client need not be reached, and the others hear nothing of the call
    intro c hc hup
    refine ((hq (some c) u.tick).and (hh.disconnected c u.tick
      (Continues.tick h.looped.wellFormed).wellFormed ?_ hup)).mono ?_
    · exact h.looped.wellFormed.accepted c (mem_ids.mpr (List.mem_of_getElem? hc))
    rintro t ⟨hsaid, hgone⟩ - hlooped
    have hclosed : u.closed ⊆ t.closed := List.Subset.trans hlater hgone.closed
    have hsame : ∀ e, (t.resetAt k).heard g e = u.heard g e := fun e => hsaid.unheard hg e
    refine ⟨hlooped, fun e hopen htold hne => ?_, fun e hopen hignored => ?_⟩
    · rcases (hnext c e hc).mp htold with htold | rfl
      · rw [hsame]
        exact h.reached e (fun he => hopen (hclosed he)) htold hne
      · exact absurd (hgone.closed hup) hopen
    · rw [hsame]
      refine h.others e (hopen.imp_left fun hopen he => hopen (hclosed he)) fun htold => ?_
      exact hignored ((hnext c e hc).mpr (.inl htold))
  · intro c hc hup hne hlooped
    obtain ⟨hk, hfresh⟩ := hentry c hc
    refine ⟨hlooped, fun e hopen htold hnee => ?_, fun e hopen hignored => ?_⟩
    · by_cases hec : e = c
      · subst hec
        have hbefore := h.others e (.inl fun he => hopen (hlater he)) fun htold => absurd htold hfresh
        rw [heard_send_self, heard_congr (s := u) (t := u.tick) rfl, hbefore]
      · rw [heard_send_ne hec, heard_congr (s := u) (t := u.tick) rfl]
        exact h.reached e (fun he => hopen (hlater he))
          (((hnext c e hc).mp htold).resolve_right hec) hnee
    · have hec : e ≠ c := by
        rintro rfl
        exact hne (hignored ((hnext e e hc).mpr (.inr rfl)))
      rw [heard_send_ne hec, heard_congr (s := u) (t := u.tick) rfl]
      refine h.others e (hopen.imp_left fun hopen he => hopen (hlater he)) fun htold => ?_
      exact hignored ((hnext c e hc).mpr (.inl htold))
  · intro c hc hup hignore hlooped
    have hsame : ∀ e, u.tick.heard g e = u.heard g e := fun e => heard_congr rfl e
    refine ⟨hlooped, fun e hopen htold hnee => ?_, fun e hopen hignored => ?_⟩
    · have hec : e ≠ c := by
        rintro rfl
        exact hnee hignore
      rw [hsame]
      exact h.reached e (fun he => hopen (hlater he))
        (((hnext c e hc).mp htold).resolve_right hec) hnee
    · rw [hsame]
      refine h.others e (hopen.imp_left fun hopen he => hopen (hlater he)) fun htold => ?_
      exact hignored ((hnext c e hc).mpr (.inl htold))

/-- A broadcast reaches every client that is still open exactly once, but for the ignored one. -/
structure Reached (g : Message → Option β) (msg : Message) (ignore : Option UInt32) (s t : Server) :
    Prop where
  reached : ∀ e ∈ s.ids, e ∉ t.closed → some e ≠ ignore →
    t.heard g e = s.heard g e ++ (g msg).toList
  others : ∀ e, (e ∉ t.closed ∧ some e = ignore) ∨ e ∉ s.ids → t.heard g e = s.heard g e

theorem messageAllClients_heard {msg : Message} {ignore : Option UInt32} (h : s.WellFormed) :
    Post (Reached g msg ignore s) (messageAllClients hook msg ignore s) := by
  have hloop := Post.foldlM_range (I := Reaching g msg ignore s) (n := s.deqConnection.length)
    (.start h msg ignore) fun k st _ hst => hst.next hh hq hg h
  refine Post.bind hloop fun st hst => Post.of_ok ?_
  have hreached : Reached g msg ignore s st.1 := by
    refine ⟨fun e he hopen hne => hst.reached e hopen (told_length he) hne, fun e he => ?_⟩
    rcases he with ⟨hopen, hignore⟩ | he
    · exact hst.others e (.inl hopen) fun _ => hignore
    · exact hst.others e (.inr he) fun htold => absurd htold.mem he
  split
  · exact ⟨hreached.reached, hreached.others⟩
  · exact hreached

end Hook

end Server

end AsciiTerra
