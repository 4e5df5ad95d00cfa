import AsciiTerra.SmallSteps

/-!
# One broadcast

`MessageAllClients` when every call of the hook comes back and leaves the connections alone: the
closed entries are reset, the others get the message. What else the calls do is an invariant
of the clients removed so far.
-/

set_option autoImplicit false

namespace AsciiTerra

namespace Server
variable {s t : Server}

/-- The connections of a list that are open when it is their turn. -/
def answering : List UInt32 → Server → List UInt32
  | [], _ => []
  | c :: l, s => if c ∈ s.tick.closed then answering l s.tick else c :: answering l s.tick

/-- Those that are closed by then. -/
def failing : List UInt32 → Server → List UInt32
  | [], _ => []
  | c :: l, s => if c ∈ s.tick.closed then c :: failing l s.tick else failing l s.tick

/-- The entries after the loop of `MessageAllClients`. -/
def blanked : List UInt32 → Server → List (Option UInt32)
  | [], _ => []
  | c :: l, s => (if c ∈ s.tick.closed then none else some c) :: blanked l s.tick

theorem blanked_length (l : List UInt32) (s : Server) : (blanked l s).length = l.length := by
  induction l generalizing s with
  | nil => rfl
  | cons c l ih => rw [blanked, List.length_cons, List.length_cons, ih]

theorem blanked_filter (l : List UInt32) (s : Server) :
    (blanked l s).filter Option.isSome = (answering l s).map some := by
  induction l generalizing s with
  | nil => rfl
  | cons c l ih =>
    unfold blanked answering
    split
    · rw [List.filter_cons_of_neg (by simp), ih]
    · rw [List.filter_cons_of_pos (by simp), ih, List.map_cons]

theorem blanked_of_failing {l : List UInt32} {s : Server} (h : failing l s = []) :
    blanked l s = (answering l s).map some := by
  induction l generalizing s with
  | nil => rfl
  | cons c l ih =>
    unfold failing at h
    split at h
    · exact nomatch h
    · rename_i hc
      simp only [blanked, answering, if_neg hc, List.map_cons, ih h]

theorem answering_of_failing {l : List UInt32} (h : failing l s = []) : answering l s = l := by
  induction l generalizing s with
  | nil => rfl
  | cons c l ih =>
    unfold failing at h
    split at h
    · exact nomatch h
    · rename_i hc
      rw [answering, if_neg hc, ih h]

theorem failing_sublist (l : List UInt32) (s : Server) : (failing l s).Sublist l := by
  induction l generalizing s with
  | nil => exact .slnil
  | cons c l ih =>
    unfold failing
    split
    · exact (ih s.tick).cons_cons c
    · exact (ih s.tick).cons c

theorem mem_answering_or_failing {l : List UInt32} {c : UInt32} (h : c ∈ l) (s : Server) :
    c ∈ answering l s ∨ c ∈ failing l s := by
  induction l generalizing s with
  | nil => exact nomatch h
  | cons d l ih =>
    unfold answering failing
    rcases List.mem_cons.mp h with rfl | h
    · split
      · exact Or.inr List.mem_cons_self
      · exact Or.inl List.mem_cons_self
    · split
      · exact (ih h s.tick).imp_right (List.mem_cons_of_mem d)
      · exact (ih h s.tick).imp_left (List.mem_cons_of_mem d)

theorem answering_eq_filter {l : List UInt32} (hl : l.Nodup) (s : Server) :
    answering l s = l.filter (· ∉ failing l s) := by
  induction l generalizing s with
  | nil => rfl
  | cons c l ih =>
    obtain ⟨hc, hl⟩ := List.nodup_cons.mp hl
    unfold answering failing
    split
    · rw [List.filter_cons_of_neg (by simp), ih hl]
      refine List.filter_congr fun d hd => ?_
      have hne : d ≠ c := fun heq => hc (heq ▸ hd)
      simp [hne]
    · have hout : c ∉ failing l s.tick := fun hmem => hc ((failing_sublist l s.tick).subset hmem)
      rw [List.filter_cons_of_pos (by simpa using hout), ih hl]

structure SameSockets (s t : Server) : Prop where
  closed : s.closed = t.closed
  closing : s.closing = t.closing
  clock : s.clock = t.clock

theorem SameSockets.tick (h : SameSockets s t) : SameSockets s.tick t.tick where
  closed := by simp only [Server.tick, h.closed, h.closing, h.clock]
  closing := h.closing
  clock := by simp only [Server.tick, h.clock]

theorem SameSockets.refl (s : Server) : SameSockets s s := ⟨rfl, rfl, rfl⟩

theorem SameSockets.trans {u : Server} (h : SameSockets s t) (h' : SameSockets t u) :
    SameSockets s u :=
  ⟨h.closed.trans h'.closed, h.closing.trans h'.closing, h.clock.trans h'.clock⟩

theorem failing_congr {l : List UInt32} (h : SameSockets s t) : failing l s = failing l t := by
  induction l generalizing s t with
  | nil => rfl
  | cons d l ih =>
    unfold failing
    rw [h.tick.closed, ih h.tick]

theorem failing_append (l l' : List UInt32) (s : Server) :
    failing (l ++ l') s = failing l s ++ failing l' (tick^[l.length] s) := by
  induction l generalizing s with
  | nil => rfl
  | cons d l ih =>
    rw [List.cons_append, failing, failing, ih, List.length_cons, Function.iterate_succ_apply]
    split
    · rw [List.cons_append]
    · rfl

theorem SameSockets.iterate (h : SameSockets s t) (n : Nat) :
    SameSockets (Server.tick^[n] s) (Server.tick^[n] t) := by
  induction n generalizing s t with
  | zero => exact h
  | succ n ih => exact ih h.tick

section Loop
variable {ι : Type} {hooks : ι → Option UInt32 → Server → Outcome Fault Server}

/-- The calls of the hooks for these clients come back with the same state and leave the
connections alone; `J` is kept, with the clients that were removed. -/
structure Tame (hooks : ι → Option UInt32 → Server → Outcome Fault Server) (clients : List UInt32)
    (J : List UInt32 → Server → Prop) : Prop where
  call : ∀ c ∈ clients, ∀ gone u, J gone u → c ∈ u.closed → ∃ t, (∀ i, hooks i (some c) u = .ok t) ∧
    SameSockets t u ∧ t.deqConnection = u.deqConnection ∧ t.sent = u.sent ∧ J (gone ++ [c]) t
  tick : ∀ gone u, J gone u → J gone u.tick
  send : ∀ gone u c msg, J gone u → J gone (u.send c msg)
  resetAt : ∀ gone u i, J gone u → J gone (u.resetAt i)
  eraseNulls : ∀ gone u, J gone u → J gone u.eraseNulls

theorem Tame.subset {clients clients' : List UInt32} {J : List UInt32 → Server → Prop}
    (h : Tame hooks clients J) (hsub : clients' ⊆ clients) : Tame hooks clients' J :=
  ⟨fun c hc => h.call c (hsub hc), h.tick, h.send, h.resetAt, h.eraseNulls⟩

def copies (msg : Message) (ignore : Option UInt32) (l : List UInt32) : List (UInt32 × Message) :=
  (l.filter fun c => some c ≠ ignore).map fun c => (c, msg)

/-- What the loop over the clients `l` makes of `u`; the sockets are those of `s`. -/
structure Swept (msg : Message) (ignore : Option UInt32) (l : List UInt32) (s u t : Server) :
    Prop where
  sockets : SameSockets t (tick^[l.length] s)
  sent : t.sent = u.sent ++ copies msg ignore (answering l s)

/-- The loop of `MessageAllClients`, by induction on the entries ahead. -/
theorem loop_swept {J : List UInt32 → Server → Prop} (msg : Message) (ignore : Option UInt32)
    (gone : List UInt32) {l : List UInt32} {pre rest : List (Option UInt32)} {s u : Server} {b : Bool}
    (htame : Tame hooks (failing l s) J) (hJ : J gone u) (hu : SameSockets u s)
    (hdeq : u.deqConnection = pre ++ (l.map some ++ rest)) :
    ∃ t, (∀ i, (List.range' pre.length l.length).foldlM (messageEntry (hooks i) msg ignore) (u, b) =
        .ok (t, b || !(failing l s).isEmpty)) ∧
      t.deqConnection = pre ++ (blanked l s ++ rest) ∧ J (gone ++ failing l s) t ∧
      Swept msg ignore l s u t := by
  induction l generalizing pre s u b gone with
  | nil =>
    refine ⟨u, by simp [failing], hdeq, by simpa [failing] using hJ, hu, ?_⟩
    simp [answering, copies]
  | cons c l ih =>
    simp only [List.length_cons, List.range'_succ, List.foldlM_cons]
    have hi : u.deqConnection[pre.length]? = some (some c) := by simp [hdeq]
    have hlen : ∀ a : Option UInt32, (pre ++ [a]).length = pre.length + 1 := fun a => by simp
    by_cases hc : c ∈ s.tick.closed
    · have hfail : failing (c :: l) s = c :: failing l s.tick := by simp only [failing, if_pos hc]
      have hclosed : c ∈ u.tick.closed := hu.tick.closed ▸ hc
      obtain ⟨v, hv, hsockets, hdeqv, hsent, hJv⟩ :=
        htame.call c (by rw [hfail]; exact List.mem_cons_self) gone u.tick (htame.tick _ _ hJ) hclosed
      have hsame : SameSockets (v.resetAt pre.length) s.tick :=
        ⟨hsockets.closed.trans hu.tick.closed, hsockets.closing.trans hu.closing,
          hsockets.clock.trans hu.tick.clock⟩
      have hrest : Tame hooks (failing l s.tick) J := htame.subset (by
        rw [hfail]
        exact List.subset_cons_self _ _)
      have hreset : (v.resetAt pre.length).deqConnection =
          (pre ++ [none]) ++ (l.map some ++ rest) := by
        simp [resetAt, hdeqv, Server.tick, hdeq]
      obtain ⟨t, ht, hdeqt, hJt, hswept⟩ := ih (b := true) _ hrest (htame.resetAt _ _ _ hJv) hsame hreset
      refine ⟨t, fun i => ?_, ?_, ?_, hswept.sockets, ?_⟩
      · rw [messageEntry_closed hi hclosed, hv i, Outcome.ok_bind, if_pos (by rw [hdeqv]; rfl),
          Outcome.ok_bind, ← hlen none, ht i, hfail]
        simp
      · rw [hdeqt]
        simp [blanked, hc]
      · rw [hfail]
        rwa [List.append_assoc] at hJt
      · have hsame : (v.resetAt pre.length).sent = u.sent := hsent
        rw [hswept.sent, hsame]
        simp only [answering, if_pos hc]
    · have hfail : failing (c :: l) s = failing l s.tick := by simp only [failing, if_neg hc]
      have hanswer : answering (c :: l) s = c :: answering l s.tick := by
        simp only [answering, if_neg hc]
      have hopen : c ∉ u.tick.closed := hu.tick.closed ▸ hc
      have hnext : ∀ v : Server, J gone v → SameSockets v u.tick → v.deqConnection = u.deqConnection →
          ∃ t, (∀ i, (List.range' (pre.length + 1) l.length).foldlM
              (messageEntry (hooks i) msg ignore) (v, b) =
              .ok (t, b || !(failing (c :: l) s).isEmpty)) ∧
            t.deqConnection = pre ++ (blanked (c :: l) s ++ rest) ∧
            J (gone ++ failing (c :: l) s) t ∧ Swept msg ignore l s.tick v t := by
        intro v hJv hv hdeqv
        have hkept : v.deqConnection = (pre ++ [some c]) ++ (l.map some ++ rest) := by
          simp [hdeqv, hdeq]
        obtain ⟨t, ht, hdeqt, hJt, hswept⟩ := ih (b := b) _ (hfail ▸ htame) hJv (hv.trans hu.tick) hkept
        refine ⟨t, fun i => ?_, ?_, ?_, hswept⟩
        · rw [← hlen (some c), ht i, hfail]
        · rw [hdeqt]
          simp [blanked, hc]
        · rwa [hfail]
      simp only [messageEntry_open hi hopen, Outcome.ok_bind]
      by_cases hignore : some c = ignore
      · obtain ⟨t, ht, hdeqt, hJt, hswept⟩ := hnext u.tick (htame.tick _ _ hJ) (.refl _) rfl
        have hcopies : copies msg ignore (answering (c :: l) s) =
            copies msg ignore (answering l s.tick) := by
          rw [hanswer, copies, List.filter_cons_of_neg (by simpa using hignore)]
          rfl
        refine ⟨t, fun i => by rw [if_neg (not_not.mpr hignore), ht i], hdeqt, hJt, hswept.sockets, ?_⟩
        rw [hswept.sent, hcopies]
        rfl
      · obtain ⟨t, ht, hdeqt, hJt, hswept⟩ := hnext (u.tick.send c msg)
          (htame.send _ _ _ _ (htame.tick _ _ hJ)) ⟨rfl, rfl, rfl⟩ rfl
        have hcopies : copies msg ignore (answering (c :: l) s) =
            (c, msg) :: copies msg ignore (answering l s.tick) := by
          rw [hanswer, copies, List.filter_cons_of_pos (by simpa using hignore)]
          rfl
        refine ⟨t, fun i => by rw [if_pos hignore, ht i], hdeqt, hJt, hswept.sockets, ?_⟩
        rw [hswept.sent, hcopies, List.append_cons]
        rfl

theorem messageAllClients_swept {J : List UInt32 → Server → Prop} (msg : Message)
    (ignore : Option UInt32) {l : List UInt32} (htame : Tame hooks (failing l s) J) (hJ : J [] s)
    (hdeq : s.deqConnection = l.map some) :
    ∃ t, (∀ i, messageAllClients (hooks i) msg ignore s = .ok t) ∧
      t.deqConnection = (answering l s).map some ∧ J (failing l s) t ∧ Swept msg ignore l s s t := by
  have hstart : s.deqConnection = [] ++ (l.map some ++ []) := by rw [hdeq, List.append_nil]; rfl
  obtain ⟨u, hu, hblanked, hJu, hswept⟩ := loop_swept (b := false) msg ignore [] htame hJ (.refl s) hstart
  have hlen : List.range s.deqConnection.length =
      List.range' ([] : List (Option UInt32)).length l.length := by
    rw [hdeq, List.length_map, List.range_eq_range']
    rfl
  have hall : ∀ i, messageAllClients (hooks i) msg ignore s =
      .ok (if (false || !(failing l s).isEmpty) then u.eraseNulls else u) := by
    intro i
    unfold messageAllClients
    rw [hlen, hu i]
    rfl
  rw [List.nil_append, List.append_nil] at hblanked
  rw [List.nil_append] at hJu
  cases hfail : failing l s with
  | nil =>
    rw [hfail] at hall hJu
    exact ⟨u, hall, by rw [hblanked, blanked_of_failing hfail], hJu, hswept⟩
  | cons c failed =>
    rw [hfail] at hall hJu
    have hsockets : SameSockets u.eraseNulls (tick^[l.length] s) :=
      ⟨hswept.sockets.closed, hswept.sockets.closing, hswept.sockets.clock⟩
    refine ⟨u.eraseNulls, hall, ?_, htame.eraseNulls _ _ hJu, hsockets, hswept.sent⟩
    simp only [Server.eraseNulls, hblanked, blanked_filter]

end Loop

theorem eq_map_reduceOption {l : List (Option UInt32)} (h : none ∉ l) :
    l = l.reduceOption.map some := by
  induction l with
  | nil => rfl
  | cons a l ih =>
    obtain ⟨ha, hl⟩ := not_or.mp fun hor => h (List.mem_cons.mpr hor)
    cases a with
    | none => exact absurd rfl ha
    | some c => rw [List.reduceOption_cons_of_some, List.map_cons, ← ih hl]

theorem listed_ids (h : none ∉ s.deqConnection) : s.deqConnection = s.ids.map some :=
  eq_map_reduceOption h

theorem ids_of_listed {l : List UInt32} (h : s.deqConnection = l.map some) : s.ids = l := by
  rw [ids, h, List.reduceOption, List.filterMap_map]
  exact List.filterMap_some

end Server

end AsciiTerra
