import AsciiTerra.HolderBroadcast

/-!
# Handlers with fixed sockets

While no socket closes, a nested call can only go on without end when the holder of the turn is
closed. A null entry that a broadcast left behind stops the nested calls, at the latest by
a fault.
-/

set_option autoImplicit false

namespace AsciiTerra

namespace Server
variable {s t : Server}

open Outcome (Post)

/-- The sockets stay as they are. -/
def Still (s : Server) : Prop := s.closing = fun _ => []

/-- The server with its sockets as they are from now on. -/
def still (s : Server) : Server := { s with closing := fun _ => [] }

theorem Still.tick_closed (h : s.Still) : s.tick.closed = s.closed := by
  unfold Still at h
  simp only [Server.tick, h, List.nil_append]

theorem Still.iterate (h : s.Still) (n : Nat) : (tick^[n] s).Still ∧ (tick^[n] s).closed = s.closed := by
  induction n generalizing s with
  | zero => exact ⟨h, rfl⟩
  | succ n ih =>
    obtain ⟨hstill, hclosed⟩ := ih (s := s.tick) h
    exact ⟨hstill, hclosed.trans h.tick_closed⟩

theorem Still.failing_eq (h : s.Still) (l : List UInt32) :
    failing l s = l.filter (· ∈ s.closed) := by
  induction l generalizing s with
  | nil => rfl
  | cons c l ih =>
    unfold failing
    rw [h.tick_closed, ih (s := s.tick) h, h.tick_closed]
    split
    · rw [List.filter_cons_of_pos (by simpa)]
    · rw [List.filter_cons_of_neg (by simpa)]

theorem findConnection_of_mem {deq : List (Option UInt32)} {id : UInt32} (hnull : none ∉ deq)
    (h : some id ∈ deq) : findConnection deq id = .ok (some id) := by
  induction deq with
  | nil => exact absurd h List.not_mem_nil
  | cons a deq ih =>
    cases a with
    | none => exact absurd List.mem_cons_self hnull
    | some a =>
      unfold findConnection
      by_cases ha : a = id
      · rw [if_pos ha, ha]
      · rw [if_neg ha]
        refine ih (fun hmem => hnull (List.mem_cons_of_mem _ hmem)) ?_
        exact (List.mem_cons.mp h).resolve_left fun heq => ha (Option.some.inj heq).symm

theorem resetTurn_ne_deep (s : Server) : s.resetTurn ≠ .deep := by
  unfold resetTurn
  split
  · exact fun h => nomatch h
  · exact Outcome.bind_ne_deep (Outcome.ofExcept_ne_deep _) fun _ _ h => nomatch h

theorem giveToFirst_ne_deep (s : Server) : s.giveToFirst ≠ .deep := by
  unfold giveToFirst
  split
  · exact fun h => nomatch h
  · exact fun h => nomatch h

theorem startTurn_deep_iff {hook : Option UInt32 → Server → Outcome Fault Server} (h : s.Still)
    (hs : s.WellFormed) (hnull : none ∉ s.deqConnection)
    (hcur : s.currentPlayerID ∈ s.gameWorld.playersList) :
    s.startTurn hook = .deep ↔
      s.currentPlayerID ∈ s.closed ∧ hook (some s.currentPlayerID) s.tick = .deep := by
  have hfind := findConnection_of_mem hnull (mem_ids.mp (hs.present _ hcur))
  unfold startTurn sendTurn
  simp only [hfind]
  by_cases hclosed : s.currentPlayerID ∈ s.tick.closed
  · rw [messageClient_closed hclosed]
    rw [h.tick_closed] at hclosed
    constructor
    · intro hdeep
      refine ⟨hclosed, ?_⟩
      rcases Outcome.bind_eq_deep.mp hdeep with hdeep | ⟨t, _, hreset⟩
      · rcases Outcome.bind_eq_deep.mp hdeep with hdeep | ⟨t, _, herase⟩
        · exact hdeep
        · exact nomatch herase
      · exact absurd hreset (resetTurn_ne_deep t)
    · rintro ⟨_, hdeep⟩
      rw [hdeep]
      rfl
  · rw [messageClient_open hclosed]
    rw [h.tick_closed] at hclosed
    refine iff_of_false (fun hdeep => ?_) fun hdeep => hclosed hdeep.1
    exact resetTurn_ne_deep _ hdeep

theorem startTurn_of_open {hook : Option UInt32 → Server → Outcome Fault Server} (h : s.Still)
    (ho : ∀ c, findConnection s.deqConnection s.currentPlayerID = .ok (some c) → c ∉ s.closed) :
    s.startTurn hook ≠ .deep := by
  refine Outcome.bind_ne_deep ?_ fun t _ => resetTurn_ne_deep t
  unfold sendTurn
  split
  · exact fun h => nomatch h
  · exact fun h => nomatch h
  · rename_i c hfind
    rw [messageClient_open (by rw [h.tick_closed]; exact ho c hfind)]
    exact fun h => nomatch h

/-- The disconnect of the holder of the turn is too deep for `n` nested calls. -/
def Deep (n : Nat) (s : Server) : Prop :=
  onClientDisconnect n (some s.currentPlayerID) s = .deep

theorem deep_iff {n : Nat} (hcur : s.currentPlayerID ∈ s.gameWorld.playersList) :
    s.Deep (n + 1) ↔ ((s.log .choosing).passTurn (onClientDisconnect n) (some s.currentPlayerID) >>=
      fun s => s.startTurn (onClientDisconnect n)) = .deep := by
  have hne : (s.log .choosing).gameWorld.playersList.entries.isEmpty = false := by
    obtain ⟨v, hv⟩ := OrderedMap.mem_iff_lookup.mp hcur
    exact List.isEmpty_eq_false_iff.mpr (List.ne_nil_of_mem (OrderedMap.mem_entries_of_lookup hv))
  unfold Deep onClientDisconnect
  rw [if_pos hcur, if_pos rfl]
  simp only [chooseNextPlayerForTurn, hne, Bool.false_eq_true, if_false]
  constructor
  · intro h
    rcases Outcome.bind_eq_deep.mp h with h | ⟨t, _, h⟩
    · exact h
    · cases h
  · intro h
    rw [h]
    rfl

/-- After the last player the enemies play. -/
theorem deep_last {n : Nat} (hcur : s.currentPlayerID ∈ s.gameWorld.playersList)
    (hlast : OrderedMap.after s.currentPlayerID s.gameWorld.playersList = []) :
    s.Deep (n + 1) ↔ (((s.log .choosing).makeAITurn (onClientDisconnect n) >>= fun s =>
      s.giveToFirst) >>= fun s => s.startTurn (onClientDisconnect n)) = .deep := by
  rw [deep_iff hcur]
  have hpass : (s.log .choosing).passTurn (onClientDisconnect n) (some s.currentPlayerID) =
      ((s.log .choosing).makeAITurn (onClientDisconnect n) >>= fun s => s.giveToFirst) := by
    unfold passTurn
    simp only [log, if_pos hcur, hlast]
  rw [hpass]

theorem deep_of_hang (hcur : s.currentPlayerID ∈ s.gameWorld.playersList)
    (hlast : OrderedMap.after s.currentPlayerID s.gameWorld.playersList = [])
    (hhang : aiTurn s.gameWorld = .deep) (n : Nat) : s.Deep n := by
  cases n with
  | zero => rfl
  | succ n =>
    rw [deep_last hcur hlast]
    unfold makeAITurn
    have hworld : (s.log .choosing).gameWorld = s.gameWorld := rfl
    rw [hworld, hhang]
    rfl

/-- The first entry that is not open is null. -/
def Nulled (s : Server) : Prop :=
  ∃ (front : List UInt32) (rest : List (Option UInt32)),
    s.deqConnection = front.map some ++ none :: rest ∧ ∀ c ∈ front, c ∉ s.closed

theorem blanked_nulled {l : List UInt32} (h : s.Still) (hfail : failing l s ≠ []) :
    ∃ (front : List UInt32) (rest : List (Option UInt32)),
      blanked l s = front.map some ++ none :: rest ∧ ∀ c ∈ front, c ∉ s.closed := by
  induction l generalizing s with
  | nil => exact absurd rfl hfail
  | cons c l ih =>
    unfold failing at hfail
    unfold blanked
    by_cases hc : c ∈ s.tick.closed
    · exact ⟨[], blanked l s.tick, by rw [if_pos hc]; rfl, by simp⟩
    · rw [if_neg hc] at hfail ⊢
      obtain ⟨front, rest, heq, hopen⟩ := ih (s := s.tick) h hfail
      refine ⟨c :: front, rest, by rw [heq]; rfl, fun d hd => ?_⟩
      rw [h.tick_closed] at hc hopen
      rcases List.mem_cons.mp hd with rfl | hd
      · exact hc
      · exact hopen d hd

/-- A broadcast is what happens at the first entry that is not open, and then the rest. -/
theorem messageAllClients_front (hook : Option UInt32 → Server → Outcome Fault Server) (h : s.Still)
    {front : List UInt32} {x : Option UInt32} {rest : List (Option UInt32)}
    (hdeq : s.deqConnection = front.map some ++ x :: rest) (hopen : ∀ c ∈ front, c ∉ s.closed)
    (msg : Message) (ignore : Option UInt32) :
    ∃ u, u.deqConnection[front.length]? = some x ∧ SameSockets u (tick^[front.length] s) ∧
      messageAllClients hook msg ignore s = ((messageEntry hook msg ignore (u, false) front.length >>=
        fun st => (List.range' (front.length + 1) rest.length).foldlM
          (messageEntry hook msg ignore) st) >>= fun st =>
        .ok (if st.2 then st.1.eraseNulls else st.1)) := by
  have hnil : failing front s = [] := by
    rw [h.failing_eq, List.filter_eq_nil_iff]
    intro c hc
    simpa using hopen c hc
  have htame : Tame (fun _ : Unit => hook) (failing front s) fun _ _ => True := by
    rw [hnil]
    exact ⟨fun _ hc => (nomatch hc), fun _ _ h => h, fun _ _ _ _ h => h, fun _ _ _ h => h,
      fun _ _ h => h⟩
  have hstart : s.deqConnection = [] ++ (front.map some ++ x :: rest) := hdeq
  obtain ⟨u, hu, hdequ, _, hswept⟩ :=
    loop_swept (b := false) msg ignore [] htame trivial (.refl s) hstart
  refine ⟨u, ?_, hswept.sockets, ?_⟩
  · rw [hdequ, List.nil_append, ← blanked_length front s]
    simp
  · have hlength : s.deqConnection.length = front.length + (rest.length + 1) := by simp [hdeq]
    have hfirst := hu ()
    rw [List.length_nil, hnil] at hfirst
    unfold messageAllClients
    rw [hlength, List.range_eq_range', ← List.range'_append_1, Nat.zero_add, List.foldlM_append,
      List.range'_succ, hfirst, Outcome.ok_bind, List.foldlM_cons]
    rfl

theorem messageAllClients_nulled (hook : Option UInt32 → Server → Outcome Fault Server)
    (msg : Message) (ignore : Option UInt32) (h : s.Still) (hn : s.Nulled)
    (hhook : ∀ u, hook none u = .fault .nullConnection) :
    messageAllClients hook msg ignore s = .fault .nullConnection := by
  obtain ⟨front, rest, hdeq, hopen⟩ := hn
  obtain ⟨u, hentry, _, hsplit⟩ := messageAllClients_front hook h hdeq hopen msg ignore
  rw [hsplit]
  simp only [messageEntry, hentry, connected, hhook, Outcome.fault_bind]

theorem messageAllClients_zero {msg : Message} {ignore : Option UInt32} (h : s.Still)
    (hnull : none ∉ s.deqConnection) {c : UInt32} (hc : c ∈ s.ids) (hclosed : c ∈ s.closed) :
    messageAllClients (onClientDisconnect 0) msg ignore s = .deep := by
  obtain ⟨d, hd⟩ := Option.isSome_iff_exists.mp
    (List.find?_isSome.mpr ⟨c, hc, List.contains_iff_mem.mpr hclosed⟩)
  obtain ⟨hdclosed, front, rest, hids, hfront⟩ := List.find?_eq_some_iff_append.mp hd
  have hdeq : s.deqConnection = front.map some ++ some d :: rest.map some := by
    rw [listed_ids hnull, hids, List.map_append, List.map_cons]
  have hopen : ∀ c ∈ front, c ∉ s.closed := by
    intro c hc hbad
    have hnot := hfront c hc
    rw [List.contains_iff_mem.mpr hbad] at hnot
    exact nomatch hnot
  obtain ⟨u, hentry, hsockets, hsplit⟩ :=
    messageAllClients_front (onClientDisconnect 0) h hdeq hopen msg ignore
  have hdu : d ∈ u.tick.closed := by
    obtain ⟨hstill, hsame⟩ := h.iterate front.length
    have hu : u.Still := hsockets.closing.trans hstill
    rw [hu.tick_closed, hsockets.closed, hsame]
    exact List.contains_iff_mem.mp hdclosed
  rw [hsplit, messageEntry_closed hentry hdu]
  rfl

theorem findConnection_front {front : List UInt32} {rest : List (Option UInt32)} {id c : UInt32}
    (h : findConnection (front.map some ++ none :: rest) id = .ok (some c)) : c ∈ front := by
  induction front with
  | nil => exact nomatch h
  | cons a front ih =>
    rw [List.map_cons, List.cons_append] at h
    unfold findConnection at h
    split at h
    · cases h
      exact List.mem_cons_self
    · exact List.mem_cons_of_mem _ (ih h)

/-- Whoever is found before a null entry is open. -/
theorem findConnection_nulled {id c : UInt32} (hn : s.Nulled)
    (h : findConnection s.deqConnection id = .ok (some c)) : c ∉ s.closed := by
  obtain ⟨front, rest, hdeq, hopen⟩ := hn
  rw [hdeq] at h
  exact hopen c (findConnection_front h)

theorem nulled_deep_iff (n : Nat) (h : s.Still) (hn : s.Nulled)
    (hcur : s.currentPlayerID ∈ s.gameWorld.playersList) :
    s.Deep (n + 2) ↔ OrderedMap.after s.currentPlayerID s.gameWorld.playersList = [] ∧
      aiTurn s.gameWorld = .deep := by
  refine ⟨fun hdeep => ?_, fun hboth => deep_of_hang hcur hboth.1 hboth.2 _⟩
  have hopen : ∀ u : Server, u.closing = s.closing → u.closed = s.closed →
      u.deqConnection = s.deqConnection → u.startTurn (onClientDisconnect (n + 1)) ≠ .deep := by
    intro u hclosing hclosed hdeq
    refine startTurn_of_open (hclosing.trans h) fun c hfind => ?_
    rw [hclosed]
    exact findConnection_nulled hn (hdeq ▸ hfind)
  have hfirst : ∀ u : Server, u.closing = s.closing → u.closed = s.closed →
      u.deqConnection = s.deqConnection →
      (u.giveToFirst >>= fun s => s.startTurn (onClientDisconnect (n + 1))) ≠ .deep := by
    intro u hclosing hclosed hdeq
    refine Outcome.bind_ne_deep (giveToFirst_ne_deep u) fun v hv => ?_
    unfold giveToFirst at hv
    split at hv
    · cases hv
    · cases hv
      exact hopen _ hclosing hclosed hdeq
  cases hafter : OrderedMap.after s.currentPlayerID s.gameWorld.playersList with
  | cons next rest =>
    rw [deep_iff hcur] at hdeep
    have hpass : (s.log .choosing).passTurn (onClientDisconnect (n + 1)) (some s.currentPlayerID) =
        .ok { s.log .choosing with currentPlayerID := next.2.id } := by
      unfold passTurn
      simp only [log, if_pos hcur, hafter]
    rw [hpass, Outcome.ok_bind] at hdeep
    exact absurd hdeep (hopen _ rfl rfl rfl)
  | nil =>
    refine ⟨rfl, ?_⟩
    rw [deep_last hcur hafter] at hdeep
    unfold makeAITurn at hdeep
    have hworld : (s.log .choosing).gameWorld = s.gameWorld := rfl
    rw [hworld] at hdeep
    cases hst : aiTurn s.gameWorld with
    | deep => rfl
    | fault e =>
      rw [hst] at hdeep
      cases hdeep
    | ok st =>
      rw [hst, Outcome.ok_bind] at hdeep
      cases hacts : st.enemyActions with
      | nil =>
        rw [hacts, List.foldlM_nil, Outcome.pure_eq_ok, Outcome.ok_bind, Outcome.ok_bind] at hdeep
        exact absurd hdeep (hfirst _ rfl rfl rfl)
      | cons action actions =>
        have hnulled := messageAllClients_nulled (s := { s.log .choosing with gameWorld := st.world })
          (onClientDisconnect (n + 1)) (gameAITurnAction action) none h hn fun _ => rfl
        rw [hacts, List.foldlM_cons, hnulled] at hdeep
        cases hdeep

/-- The holder of the turn is not among the closed connections of the list. -/
structure Harmless (s : Server) : Prop where
  wellFormed : s.WellFormed
  still : s.Still
  current : s.currentPlayerID ∈ s.ids → s.currentPlayerID ∉ s.closed

/-- Whoever is removed, the turn is with someone who is connected. -/
theorem Harmless.of_disconnected {c : UInt32} {i : Nat} (h : s.Still)
    (hi : s.deqConnection[i]? = some (some c)) (hc : c ∈ s.closed)
    (hbefore : c ≠ s.currentPlayerID → s.currentPlayerID ∈ s.ids → s.currentPlayerID ∉ s.closed)
    (hd : Disconnected c s t) (hlength : t.deqConnection.length = s.deqConnection.length) :
    (t.resetAt i).Harmless := by
  have hdeq : t.deqConnection = s.deqConnection := hd.deqConnection.eq_of_length hlength
  have hclosed : t.closed = s.closed := hd.still h
  have hreset := Continues.resetAt hd.wellFormed (i := i) (c := c) (by rw [hdeq]; exact hi)
    (hclosed ▸ hc) hd.left
  refine ⟨hreset.wellFormed, hd.closing.trans h, fun hmem => ?_⟩
  have hgoal : t.currentPlayerID ∉ t.closed := by
    rw [hclosed]
    by_cases hcur : c = s.currentPlayerID
    · exact (hd.passed hcur).2
    · have hsame := (hd.kept hcur).currentPlayerID
      rw [hsame]
      apply hbefore hcur
      apply hd.ids.subset
      rw [← hsame]
      exact hreset.ids.subset hmem
  exact hgoal

theorem messageEntry_harmless (n : Nat) {msg : Message} {ignore : Option UInt32}
    {st : Server × Bool} {i : Nat} (h : st.1.Harmless) :
    messageEntry (onClientDisconnect (n + 1)) msg ignore st i ≠ .deep ∧
    Post (fun st' => st'.1.Harmless) (messageEntry (onClientDisconnect (n + 1)) msg ignore st i) := by
  obtain ⟨s, b⟩ := st
  cases hi : s.deqConnection[i]? with
  | none =>
    simp only [messageEntry, hi]
    exact ⟨fun h => (by cases h), Post.of_fault⟩
  | some client =>
    cases client with
    | none =>
      simp only [messageEntry, hi]
      exact ⟨fun h => (by cases h), Post.of_fault⟩
    | some c =>
      have hticked : s.tick.Harmless :=
        ⟨(Continues.tick h.wellFormed).wellFormed, h.still, h.still.tick_closed ▸ h.current⟩
      have hids : c ∈ s.tick.ids := mem_ids.mpr (List.mem_of_getElem? hi)
      by_cases hup : c ∈ s.tick.closed
      · have hcur : c ≠ s.tick.currentPlayerID := fun heq => hticked.current (heq ▸ hids) (heq ▸ hup)
        rw [messageEntry_closed hi hup]
        constructor
        · refine Outcome.bind_ne_deep ?_ fun t _ => ?_
          · by_cases hmem : c ∈ s.tick.gameWorld.playersList
            · rw [onClientDisconnect_of_ne hmem hcur]
              intro h
              cases h
            · rw [onClientDisconnect_of_not_mem hmem]
              intro h
              cases h
          · split
            · intro h
              cases h
            · intro h
              cases h
        · refine Post.bind ((onClientDisconnect_spec (n + 1)).disconnected c s.tick
            hticked.wellFormed (hticked.wellFormed.accepted c hids) hup) fun t ht => ?_
          split
          · rename_i hlength
            exact Post.of_ok (.of_disconnected hticked.still hi hup (fun _ => hticked.current) ht hlength)
          · exact Post.of_fault
      · rw [messageEntry_open hi hup]
        refine ⟨fun h => (by cases h), Post.of_ok ?_⟩
        split
        · exact ⟨(Continues.send hticked.wellFormed c msg).wellFormed, hticked.still, hticked.current⟩
        · exact hticked

theorem messageAllClients_harmless (n : Nat) {msg : Message} {ignore : Option UInt32}
    (h : s.Harmless) : messageAllClients (onClientDisconnect (n + 1)) msg ignore s ≠ .deep := by
  refine Outcome.bind_ne_deep ?_ fun st _ h => nomatch h
  exact Outcome.foldlM_ne_deep (I := fun st : Server × Bool => st.1.Harmless) h
    fun st i _ hst => messageEntry_harmless n hst

def AllOpen (s : Server) : Prop := ∀ c ∈ s.ids, c ∉ s.closed

/-- The first `k` entries have been visited. -/
structure Visited (s : Server) (k : Nat) (t : Server) : Prop where
  wellFormed : t.WellFormed
  closing : t.closing = s.closing
  closed : t.closed = s.closed
  length : t.deqConnection.length = s.deqConnection.length
  visited : ∀ j < k, ∀ c, t.deqConnection[j]? = some (some c) → c ∉ s.closed

theorem messageEntry_visited {hook : Option UInt32 → Server → Outcome Fault Server}
    (hh : HookSpec hook) {msg : Message} {ignore : Option UInt32} {k : Nat} {b : Bool}
    (h : s.Still) (ht : Visited s k t) :
    Post (fun st => Visited s (k + 1) st.1) (messageEntry hook msg ignore (t, b) k) := by
  have hstill : t.Still := ht.closing.trans h
  have hwf := (Continues.tick ht.wellFormed).wellFormed
  cases hk : t.deqConnection[k]? with
  | none =>
    simp only [messageEntry, hk]
    exact Post.of_fault
  | some client =>
    cases client with
    | none =>
      simp only [messageEntry, hk, connected]
      intro st hst
      obtain ⟨u, hu, _⟩ := Outcome.bind_eq_ok.mp hst
      exact absurd hu (hh.null _ u)
    | some c =>
      have hids : c ∈ t.tick.ids := mem_ids.mpr (List.mem_of_getElem? hk)
      by_cases hup : c ∈ t.tick.closed
      · rw [messageEntry_closed hk hup]
        refine Post.bind (hh.disconnected c _ hwf (hwf.accepted c hids) hup) fun u hu => ?_
        split
        · rename_i hlength
          have hdeq : u.deqConnection = t.deqConnection := hu.deqConnection.eq_of_length hlength
          have hclosed : u.closed = t.closed := (hu.still hstill).trans hstill.tick_closed
          have hreset := Continues.resetAt hu.wellFormed (i := k) (c := c) (by rw [hdeq]; exact hk)
            (hu.closed hup) hu.left
          refine Post.of_ok ⟨hreset.wellFormed, hu.closing.trans ht.closing,
            hclosed.trans ht.closed, ?_, fun j hj a ha => ?_⟩
          · simp only [resetAt, List.length_set, hdeq, ht.length]
          · simp only [resetAt, hdeq] at ha
            by_cases hjk : k = j
            · subst j
              simp [List.getElem?_set_self'] at ha
            · rw [List.getElem?_set_ne hjk] at ha
              exact ht.visited j (by omega) a ha
        · exact Post.of_fault
      · have hvisited : ∀ j < k + 1, ∀ a, t.deqConnection[j]? = some (some a) → a ∉ s.closed := by
          intro j hj a ha
          by_cases hjk : j = k
          · subst j
            cases hk.symm.trans ha
            rwa [hstill.tick_closed, ht.closed] at hup
          · exact ht.visited j (by omega) a ha
        have hclosed : t.tick.closed = s.closed := hstill.tick_closed.trans ht.closed
        rw [messageEntry_open hk hup]
        refine Post.of_ok ?_
        split
        · exact ⟨(Continues.send hwf c msg).wellFormed, ht.closing, hclosed, ht.length, hvisited⟩
        · exact ⟨hwf, ht.closing, hclosed, ht.length, hvisited⟩

theorem foldlM_visited {hook : Option UInt32 → Server → Outcome Fault Server} (hh : HookSpec hook)
    {msg : Message} {ignore : Option UInt32} (hs : s.WellFormed) (h : s.Still) (k : Nat) :
    Post (fun st => Visited s k st.1)
      ((List.range k).foldlM (messageEntry hook msg ignore) (s, false)) := by
  refine Post.foldlM_range (I := fun k (st : Server × Bool) => Visited s k st.1) ?_ ?_
  · exact ⟨hs, rfl, rfl, rfl, fun j hj => absurd hj (Nat.not_lt_zero j)⟩
  · intro i st _ hst
    exact messageEntry_visited hh h hst

theorem messageAllClients_allOpen {hook : Option UInt32 → Server → Outcome Fault Server}
    (hh : HookSpec hook) (msg : Message) (ignore : Option UInt32) (hs : s.WellFormed)
    (h : s.Still) :
    Post (fun t => t.WellFormed ∧ t.Still ∧ t.AllOpen) (messageAllClients hook msg ignore s) := by
  refine Post.bind (foldlM_visited hh hs h _) fun st hst => ?_
  have hopen : ∀ a, some a ∈ st.1.deqConnection → a ∉ st.1.closed := by
    intro a ha
    obtain ⟨j, hj⟩ := List.mem_iff_getElem?.mp ha
    rw [hst.closed]
    refine hst.visited j ?_ a hj
    rw [← hst.length]
    exact (List.getElem?_eq_some_iff.mp hj).1
  refine Post.of_ok ?_
  split
  · refine ⟨(Continues.eraseNulls hst.wellFormed).wellFormed, hst.closing.trans h, fun a ha => ?_⟩
    exact hopen a (List.mem_of_mem_filter (mem_ids.mp ha))
  · exact ⟨hst.wellFormed, hst.closing.trans h, fun a ha => hopen a (mem_ids.mp ha)⟩

theorem afterBroadcast_ne_deep (n : Nat) {actions : List EnemyAction} {dirt : Bool}
    (hs : s.WellFormed) (h : s.Still) (ho : s.AllOpen) :
    ((((actions.foldlM (fun s action => messageAllClients (onClientDisconnect (n + 1))
      (gameAITurnAction action) none s) s >>= fun s =>
        .ok { s with gameWorld := removeDeadEnemies dirt s.gameWorld }) >>= fun s =>
          s.giveToFirst) >>= fun s => s.startTurn (onClientDisconnect (n + 1))) :
      Outcome Fault Server) ≠ .deep := by
  have hloop : ∀ s : Server, s.WellFormed ∧ s.Still ∧ s.AllOpen → ∀ action,
      messageAllClients (onClientDisconnect (n + 1)) (gameAITurnAction action) none s ≠ .deep ∧
      Post (fun t => t.WellFormed ∧ t.Still ∧ t.AllOpen)
        (messageAllClients (onClientDisconnect (n + 1)) (gameAITurnAction action) none s) :=
    fun s ⟨hs, h, ho⟩ action =>
      ⟨messageAllClients_harmless n ⟨hs, h, fun hmem => ho _ hmem⟩,
        messageAllClients_allOpen (onClientDisconnect_spec _) _ _ hs h⟩
  have hactions := Outcome.foldlM_ne_deep (l := actions) (I := fun s : Server => s.WellFormed ∧
    s.Still ∧ s.AllOpen) ⟨hs, h, ho⟩ fun s action _ hs => hloop s hs action
  have hpost : Post (fun t : Server => t.WellFormed ∧ t.Still ∧ t.AllOpen)
      (actions.foldlM (fun s action => messageAllClients (onClientDisconnect (n + 1))
        (gameAITurnAction action) none s) s) :=
    Post.foldlM ⟨hs, h, ho⟩ fun s action _ hs => (hloop s hs action).2
  refine Outcome.bind_ne_deep (Outcome.bind_ne_deep (Outcome.bind_ne_deep hactions
    fun _ _ h => (nomatch h)) fun u _ => giveToFirst_ne_deep u) fun v hv => ?_
  obtain ⟨u, hu, hv⟩ := Outcome.bind_eq_ok.mp hv
  obtain ⟨t, ht, hu⟩ := Outcome.bind_eq_ok.mp hu
  cases hu
  obtain ⟨-, htstill, htopen⟩ := hpost t ht
  have hsame : v.closing = t.closing ∧ v.closed = t.closed ∧ v.deqConnection = t.deqConnection := by
    unfold giveToFirst at hv
    split at hv
    · exact nomatch hv
    · cases hv
      exact ⟨rfl, rfl, rfl⟩
  obtain ⟨hclosing, hclosed, hdeq⟩ := hsame
  refine startTurn_of_open (hclosing.trans htstill) fun c hfind => ?_
  rw [hclosed]
  exact htopen c (mem_ids.mpr (hdeq ▸ findConnection_mem hfind))

/-- The closed connections before that of `c`. -/
def goneBefore (c : UInt32) (s : Server) : List UInt32 :=
  (s.ids.takeWhile (· ≠ c)).filter (· ∈ s.closed)

/-- The closed connections before that of the holder of the turn. -/
def gone (s : Server) : List UInt32 := s.goneBefore s.currentPlayerID

/-- A broadcast is about to disconnect the holder: the connections before it have left. -/
structure HolderReached (s u : Server) : Prop where
  wellFormed : u.WellFormed
  still : u.Still
  closed : u.closed = s.closed
  currentPlayerID : u.currentPlayerID = s.currentPlayerID
  gameWorld : u.gameWorld = s.gameWorld.without s.gone
  undisturbed : s.gone = [] → u.deqConnection = s.deqConnection
  nulled : s.gone ≠ [] → u.Nulled

theorem HolderReached.mem {u : Server} (h : HolderReached s u)
    (hmem : s.currentPlayerID ∈ s.gameWorld.playersList) :
    u.currentPlayerID ∈ u.gameWorld.playersList := by
  have hgone : s.currentPlayerID ∉ s.gone := by
    intro hin
    have hne := List.mem_takeWhile_imp (List.mem_of_mem_filter hin)
    simp at hne
  rw [h.currentPlayerID, h.gameWorld, OrderedMap.mem_iff_lookup, GameWorld.lookup_without hgone,
    ← OrderedMap.mem_iff_lookup]
  exact hmem

theorem messageEntry_harmless_of_holder {c : UInt32} {k : Nat} {b : Bool} (hstill : s.Still)
    (hwf : s.tick.WellFormed) (hcur : s.tick.currentPlayerID = c)
    (hentry : s.deqConnection[k]? = some (some c)) (hclosed : c ∈ s.tick.closed) (msg : Message)
    (ignore : Option UInt32) (n : Nat) (st : Server × Bool)
    (hst : messageEntry (onClientDisconnect (n + 1)) msg ignore (s, b) k = .ok st) :
    st.1.Harmless := by
  rw [messageEntry_closed hentry hclosed] at hst
  obtain ⟨t, ht, hst⟩ := Outcome.bind_eq_ok.mp hst
  have hids : c ∈ s.tick.ids := mem_ids.mpr (List.mem_of_getElem? hentry)
  have hd := (onClientDisconnect_spec (n + 1)).disconnected _ s.tick hwf
    (hwf.accepted _ hids) hclosed t ht
  have htick : s.tick.Still := hstill
  split at hst
  · rename_i hlength
    cases hst
    exact .of_disconnected htick hentry hclosed (fun hne => absurd hcur.symm hne) hd hlength
  · cases hst

/-- Such a broadcast ends exactly when the disconnect of the holder does. -/
theorem messageAllClients_holder (hs : s.WellFormed) (h : s.Still) (hnull : none ∉ s.deqConnection)
    (hmem : s.currentPlayerID ∈ s.gameWorld.playersList) (hclosed : s.currentPlayerID ∈ s.closed)
    (msg : Message) (ignore : Option UInt32) : ∃ u, HolderReached s u ∧ ∀ n,
      (messageAllClients (onClientDisconnect n) msg ignore s = .deep ↔ u.Deep n) := by
  obtain ⟨pre, post, hids⟩ := List.append_of_mem (hs.present _ hmem)
  have hnodup : (pre ++ s.currentPlayerID :: post).Nodup := hids ▸ hs.distinct
  have hpre : s.currentPlayerID ∉ pre := fun hin =>
    (List.nodup_append.mp hnodup).2.2 _ hin _ List.mem_cons_self rfl
  have hgone : s.gone = failing pre s := by
    have htake : s.ids.takeWhile (· ≠ s.currentPlayerID) = pre := by
      rw [hids, List.takeWhile_append_of_pos, List.takeWhile_cons_of_neg, List.append_nil]
      · simp
      · intro a ha
        have hne : a ≠ s.currentPlayerID := fun heq => hpre (heq ▸ ha)
        simpa using hne
    rw [gone, goneBefore, htake, h.failing_eq]
  obtain ⟨v, hv, hsplit⟩ := messageAllClients_split hnull hids hpre rfl msg ignore
  have hlooped := hv.looped hs
  obtain ⟨hstill, hsame⟩ := h.iterate pre.length
  have hvstill : v.Still := hv.sockets.closing.trans hstill
  have hvclosed : v.tick.closed = s.closed :=
    hvstill.tick_closed.trans (hv.sockets.closed.trans hsame)
  have hcur : v.tick.currentPlayerID = s.currentPlayerID := hv.currentPlayerID
  have hwf := (Continues.tick hlooped.wellFormed).wellFormed
  have hclosedv : s.currentPlayerID ∈ v.tick.closed := hvclosed ▸ hclosed
  refine ⟨v.tick, ⟨hwf, hvstill, hvclosed, hcur, hgone ▸ hv.gameWorld, fun hnil => ?_, fun hne => ?_⟩,
    fun n => ?_⟩
  · have hdeq : s.deqConnection = pre.map some ++ some s.currentPlayerID :: post.map some := by
      rw [listed_ids hnull, hids, List.map_append, List.map_cons]
    have hfail : failing pre s = [] := hgone ▸ hnil
    have hdeqv : v.tick.deqConnection = v.deqConnection := rfl
    rw [hdeqv, hv.deqConnection, hdeq, blanked_of_failing hfail, answering_of_failing hfail]
  · obtain ⟨front, rest, heq, hopen⟩ := blanked_nulled h (hgone ▸ hne)
    refine ⟨front, rest ++ some s.currentPlayerID :: post.map some, ?_, fun c hc => ?_⟩
    · have hdeqv : v.tick.deqConnection = v.deqConnection := rfl
      rw [hdeqv, hv.deqConnection, heq, List.append_assoc, List.cons_append]
    · rw [hvclosed]
      exact hopen c hc
  · cases n with
    | zero => exact iff_of_true (messageAllClients_zero h hnull (hs.present _ hmem) hclosed) rfl
    | succ n =>
      rw [hsplit n, messageEntry_closed hv.entry hclosedv]
      unfold Deep
      rw [hcur]
      constructor
      · intro hdeep
        by_contra hne
        have hentry := messageEntry_harmless_of_holder (b := false) hvstill hwf hcur hv.entry hclosedv
          msg ignore n
        refine absurd hdeep (Outcome.bind_ne_deep (Outcome.bind_ne_deep (Outcome.bind_ne_deep hne
          fun t _ => ?_) fun st hst => ?_) fun _ _ h => nomatch h)
        · split
          · exact fun h => nomatch h
          · exact fun h => nomatch h
        · rw [← messageEntry_closed (b := false) hv.entry hclosedv] at hst
          exact Outcome.foldlM_ne_deep (I := fun st : Server × Bool => st.1.Harmless) (hentry st hst)
            fun st i _ hst => messageEntry_harmless n hst
      · intro hdeep
        rw [hdeep]
        rfl

end Server

end AsciiTerra
