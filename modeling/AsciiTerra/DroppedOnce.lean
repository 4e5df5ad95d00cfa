import AsciiTerra.Broadcast

/-!
# Dropping closed connections

What `MessageClient` and `MessageAllClients` do on their own, with any hook that only changes
the game. A broadcast drops each connection it finds closed. `MessageClient` resets its own
copy of the pointer, so the entry in `m_deqConnection` stays and is found once more.
-/

set_option autoImplicit false

namespace AsciiTerra

/-- The connection that `OnClientDisconnect` is called for. -/
def Notice.calledID : Notice → Option UInt32
  | .called client => client
  | _ => none

namespace Server
variable {s t : Server} {hook : Option UInt32 → Server → Outcome Fault Server}

/-- A hook that neither sends nor touches the connections. -/
def Quiet (hook : Option UInt32 → Server → Outcome Fault Server) : Prop :=
  ∀ client s, ∃ world garbage current trace, hook client s = .ok { s with
    gameWorld := world, garbageIDs := garbage, currentPlayerID := current, trace := trace }

/-- The hook with a record of its calls. -/
def recorded (hook : Option UInt32 → Server → Outcome Fault Server) (client : Option UInt32)
    (s : Server) : Outcome Fault Server := do
  let s ← hook client s
  .ok (s.note (.called client))

/-- The connections that were found closed, once for each call of the hook. -/
def found (s : Server) : List UInt32 := s.notices.filterMap Notice.calledID

/-- What a call of a recorded quiet hook leaves alone. -/
structure Called (client : Option UInt32) (s t : Server) : Prop extends SameSockets t s where
  deqConnection : t.deqConnection = s.deqConnection
  sent : t.sent = s.sent
  found : t.found = s.found ++ client.toList

theorem recorded_called (hq : Quiet hook) (client : Option UInt32) (s : Server) :
    ∃ t, recorded hook client s = .ok t ∧ Called client s t := by
  obtain ⟨world, garbage, current, trace, hok⟩ := hq client s
  let u : Server := { s with
    gameWorld := world, garbageIDs := garbage, currentPlayerID := current, trace := trace }
  have hrecorded : recorded hook client s = .ok (u.note (.called client)) := by
    rw [recorded, hok]
    rfl
  refine ⟨u.note (.called client), hrecorded, ⟨rfl, rfl, rfl⟩, rfl, rfl, ?_⟩
  simp only [Server.found, note, List.filterMap_append]
  cases client <;> rfl

/-- The record of calls grows by the clients that are removed. -/
theorem recorded_tame (hq : Quiet hook) (before clients : List UInt32) :
    Tame (fun _ : Unit => recorded hook) clients fun gone u => u.found = before ++ gone where
  call c _ gone u hfound _ := by
    obtain ⟨t, ht, hcalled⟩ := recorded_called hq (some c) u
    refine ⟨t, fun _ => ht, hcalled.toSameSockets, hcalled.deqConnection, hcalled.sent, ?_⟩
    rw [hcalled.found, hfound, List.append_assoc]
    rfl
  tick _ _ h := h
  send _ _ _ _ h := h
  resetAt _ _ _ h := h
  eraseNulls _ _ h := h

theorem messageAllClients_recorded (hq : Quiet hook) (msg : Message) (ignore : Option UInt32)
    {l : List UInt32} (hdeq : s.deqConnection = l.map some) :
    ∃ t, messageAllClients (recorded hook) msg ignore s = .ok t ∧
      t.deqConnection = (answering l s).map some ∧ t.found = s.found ++ failing l s ∧
      Swept msg ignore l s s t := by
  obtain ⟨t, ht, hrest⟩ :=
    messageAllClients_swept _ _ (recorded_tame hq s.found _) (List.append_nil _).symm hdeq
  exact ⟨t, ht (), hrest⟩

/-- A call from the derived class or from the program. -/
inductive Call
  | messageClient (client : Option UInt32) (msg : Message)
  | messageAllClients (msg : Message) (ignoreClient : Option UInt32)

def callStep (hook : Option UInt32 → Server → Outcome Fault Server) (s : Server) (call : Call) :
    Option Server :=
  let outcome := match call with
    | .messageClient client msg => messageClient (recorded hook) client msg s
    | .messageAllClients msg ignore => messageAllClients (recorded hook) msg ignore s
  match outcome with
  | .ok t => some t
  | _ => none

/-- Since `s₀` the hook was called once for each connection that was found closed, and the list
has lost these and no others. -/
def Tidy (s₀ s : Server) : Prop :=
  s.found.Nodup ∧ s.deqConnection = (s₀.ids.filter (· ∉ s.found)).map some

/-- A connection was found closed twice, or it is still listed. -/
def Untidy (s : Server) : Prop := ¬ s.found.Nodup ∨ ∃ c ∈ s.found, some c ∈ s.deqConnection

/-- `MessageClient` finds its client closed although it is listed or was found before. -/
def KeepsClosed (s : Server) : Call → Prop
  | .messageClient (some c) _ => c ∈ s.tick.closed ∧ (some c ∈ s.deqConnection ∨ c ∈ s.found)
  | _ => False

theorem Tidy.not_untidy {s₀ : Server} (h : Tidy s₀ s) : ¬ s.Untidy := by
  rintro (hdup | ⟨c, hc, hlisted⟩)
  · exact hdup h.1
  · rw [h.2] at hlisted
    obtain ⟨d, hd, heq⟩ := List.mem_map.mp hlisted
    cases heq
    exact of_decide_eq_true (List.mem_filter.mp hd).2 hc

theorem messageClient_called (hq : Quiet hook) (client : Option UInt32) (msg : Message)
    {l : List UInt32} (hdeq : s.deqConnection = l.map some) :
    ∃ t, messageClient (recorded hook) client msg s = .ok t ∧ t.deqConnection = s.deqConnection ∧
      t.found = s.found ++ (client.filter (· ∈ s.tick.closed)).toList := by
  have hfilter : (l.map some).filter Option.isSome = l.map some :=
    List.filter_eq_self.mpr fun a ha => by
      obtain ⟨c, _, rfl⟩ := List.mem_map.mp ha
      rfl
  cases client with
  | none =>
    obtain ⟨t, ht, hcalled⟩ := recorded_called hq none s
    refine ⟨t.eraseNulls, ?_, ?_, hcalled.found⟩
    · unfold messageClient
      simp only [connected, ht, Outcome.ok_bind]
    · simp only [eraseNulls, hcalled.deqConnection, hdeq, hfilter]
  | some c =>
    by_cases hc : c ∈ s.tick.closed
    · obtain ⟨t, ht, hcalled⟩ := recorded_called hq (some c) s.tick
      refine ⟨t.eraseNulls, ?_, ?_, ?_⟩
      · rw [messageClient_closed hc, ht, Outcome.ok_bind]
      · have hsame : t.deqConnection = l.map some := hcalled.deqConnection.trans hdeq
        simp only [eraseNulls, hsame, hfilter, hdeq]
      · have hfound : t.eraseNulls.found = s.found ++ [c] := hcalled.found
        rw [hfound, Option.filter_some_pos (by simpa using hc)]
        rfl
    · refine ⟨s.tick.send c msg, messageClient_open hc, rfl, ?_⟩
      rw [Option.filter_some_neg (by simpa using hc)]
      exact (List.append_nil _).symm

section Run
variable (hq : Quiet hook) {call : Call} {l : List UInt32}
include hq

theorem callStep_cases (hdeq : s.deqConnection = l.map some) (h : callStep hook s call = some t) :
    (∃ client msg, call = .messageClient client msg ∧ t.deqConnection = s.deqConnection ∧
      t.found = s.found ++ (client.filter (· ∈ s.tick.closed)).toList) ∨
    (∃ msg ignore, call = .messageAllClients msg ignore ∧
      t.deqConnection = (answering l s).map some ∧ t.found = s.found ++ failing l s) := by
  cases call with
  | messageClient client msg =>
    obtain ⟨u, hu, hrest⟩ := messageClient_called hq client msg hdeq
    simp only [callStep, hu] at h
    cases h
    exact Or.inl ⟨client, msg, rfl, hrest⟩
  | messageAllClients msg ignore =>
    obtain ⟨u, hu, hanswer, hfound, _⟩ := messageAllClients_recorded hq msg ignore hdeq
    simp only [callStep, hu] at h
    cases h
    exact Or.inr ⟨msg, ignore, rfl, hanswer, hfound⟩

theorem callStep_listed (hdeq : s.deqConnection = l.map some) (h : callStep hook s call = some t) :
    ∃ l' : List UInt32, t.deqConnection = l'.map some := by
  rcases callStep_cases hq hdeq h with ⟨_, _, _, hsame, _⟩ | ⟨_, _, _, hanswer, _⟩
  · exact ⟨l, hsame.trans hdeq⟩
  · exact ⟨_, hanswer⟩

theorem callStep_tidy {s₀ : Server} (hdistinct : s₀.ids.Nodup) (hs : Tidy s₀ s)
    (hkeeps : ¬ KeepsClosed s call) (h : callStep hook s call = some t) : Tidy s₀ t := by
  obtain ⟨hnodup, hdeq⟩ := hs
  rcases callStep_cases hq hdeq h with ⟨client, msg, rfl, hsame, hfound⟩ |
    ⟨msg, ignore, rfl, hanswer, hfound⟩
  · cases hfilter : client.filter (· ∈ s.tick.closed) with
    | none =>
      rw [hfilter, Option.toList_none, List.append_nil] at hfound
      exact ⟨hfound ▸ hnodup, by rw [hsame, hdeq, hfound]⟩
    | some c =>
      obtain ⟨rfl, hclosed⟩ := Option.filter_eq_some_iff.mp hfilter
      have hnew : ¬ (some c ∈ s.deqConnection ∨ c ∈ s.found) := fun hold =>
        hkeeps ⟨of_decide_eq_true hclosed, hold⟩
      obtain ⟨hunlisted, hunfound⟩ := not_or.mp hnew
      rw [hfilter, Option.toList_some] at hfound
      refine ⟨?_, ?_⟩
      · rw [hfound]
        exact List.nodup_append.mpr ⟨hnodup, by simp, fun a ha b hb heq =>
          hunfound (List.mem_singleton.mp hb ▸ heq ▸ ha)⟩
      · rw [hsame, hdeq, hfound]
        refine congrArg _ (List.filter_congr fun d hd => ?_)
        have hne : d ∉ s.found → d ≠ c := by
          rintro hd' rfl
          exact hunlisted (by rw [hdeq]; simp [hd, hd'])
        by_cases hd' : d ∈ s.found
        · simp [hd']
        · simp [hd', hne hd']
  · have hl : (s₀.ids.filter (· ∉ s.found)).Nodup := hdistinct.filter _
    refine ⟨?_, ?_⟩
    · rw [hfound]
      refine List.nodup_append.mpr ⟨hnodup, hl.sublist (failing_sublist _ s), ?_⟩
      rintro a ha b hb rfl
      exact of_decide_eq_true (List.mem_filter.mp ((failing_sublist _ s).subset hb)).2 ha
    · rw [hanswer, answering_eq_filter hl, List.filter_filter, hfound]
      refine congrArg _ (List.filter_congr fun d _ => ?_)
      simp [Bool.and_comm]

theorem callStep_untidy (hdeq : s.deqConnection = l.map some) (hs : s.Untidy)
    (h : callStep hook s call = some t) : t.Untidy := by
  have hprefix : s.found <+: t.found := by
    rcases callStep_cases hq hdeq h with ⟨_, _, _, _, hfound⟩ | ⟨_, _, _, _, hfound⟩
    · exact ⟨_, hfound.symm⟩
    · exact ⟨_, hfound.symm⟩
  rcases hs with hdup | ⟨c, hc, hlisted⟩
  · exact Or.inl fun hnodup => hdup (hnodup.sublist hprefix.sublist)
  · rcases callStep_cases hq hdeq h with ⟨_, _, _, hsame, _⟩ | ⟨_, _, _, hanswer, hfound⟩
    · exact Or.inr ⟨c, hprefix.subset hc, hsame ▸ hlisted⟩
    · rw [hdeq] at hlisted
      obtain ⟨d, hd, heq⟩ := List.mem_map.mp hlisted
      cases heq
      rcases mem_answering_or_failing hd s with hopen | hfail
      · exact Or.inr ⟨c, hprefix.subset hc, hanswer ▸ List.mem_map.mpr ⟨c, hopen, rfl⟩⟩
      · refine Or.inl fun hnodup => ?_
        rw [hfound] at hnodup
        exact (List.nodup_append.mp hnodup).2.2 c hc c hfail rfl

theorem keepsClosed_untidy (hdeq : s.deqConnection = l.map some) (hkeeps : KeepsClosed s call)
    (h : callStep hook s call = some t) : t.Untidy := by
  rcases callStep_cases hq hdeq h with ⟨client, msg, rfl, hsame, hfound⟩ | ⟨_, _, rfl, _, _⟩
  · cases client with
    | none => exact hkeeps.elim
    | some c =>
      obtain ⟨hclosed, hold⟩ := hkeeps
      rw [Option.filter_some_pos (by simpa using hclosed), Option.toList_some] at hfound
      rcases hold with hlisted | hold
      · exact Or.inr ⟨c, by rw [hfound]; simp, hsame ▸ hlisted⟩
      · refine Or.inl fun hnodup => ?_
        rw [hfound] at hnodup
        exact (List.nodup_append.mp hnodup).2.2 c hold c (List.mem_singleton.mpr rfl) rfl
  · exact hkeeps.elim

theorem run_untidy {calls : List Call} (hdeq : s.deqConnection = l.map some)
    (hrun : Machine.run (callStep hook) s calls = some t)
    (hkept : ¬ Machine.Along (callStep hook) (fun s call => ¬ KeepsClosed s call) s calls) :
    t.Untidy := by
  induction calls generalizing s l with
  | nil => exact absurd trivial hkept
  | cons call calls ih =>
    obtain ⟨s', hs', hrun⟩ := Machine.run_cons_eq_some.mp hrun
    obtain ⟨l', hdeq'⟩ := callStep_listed hq hdeq hs'
    by_cases hkeeps : KeepsClosed s call
    · have hbad : s'.Untidy := keepsClosed_untidy hq hdeq hkeeps hs'
      have hall := Machine.invariant
        (I := fun s : Server => (∃ l : List UInt32, s.deqConnection = l.map some) ∧ s.Untidy)
        (fun s call t hs h => by
          obtain ⟨⟨l, hdeq⟩, huntidy⟩ := hs
          exact ⟨callStep_listed hq hdeq h, callStep_untidy hq hdeq huntidy h⟩)
        ⟨⟨l', hdeq'⟩, hbad⟩ hrun
      exact hall.2
    · refine ih hdeq' hrun fun halong => hkept ⟨hkeeps, fun u hu => ?_⟩
      cases hs'.symm.trans hu
      exact halong

/-- Closed connections leave the list, and the hook hears of each once, exactly in the runs where
`MessageClient` finds no client closed that is listed or was found before. A broadcast goes
once to every connection of the list that is open, except for the one to ignore. -/
theorem dropped_once_iff {s₀ : Server} (hnull : none ∉ s₀.deqConnection) (hdistinct : s₀.ids.Nodup)
    (hfresh : s₀.found = []) {calls : List Call}
    (hrun : Machine.run (callStep hook) s₀ calls = some s) :
    (Tidy s₀ s ↔
      Machine.Along (callStep hook) (fun s call => ¬ KeepsClosed s call) s₀ calls) ∧
    ∀ msg ignore, ∃ t, messageAllClients (recorded hook) msg ignore s = .ok t ∧
      t.sent = s.sent ++ copies msg ignore (answering s.ids s) := by
  have hdeq := listed_ids hnull
  refine ⟨⟨fun htidy => ?_, fun halong => ?_⟩, fun msg ignore => ?_⟩
  · by_contra hkept
    exact htidy.not_untidy (run_untidy hq hdeq hrun hkept)
  · refine Machine.invariant_along (fun s call t hs hkeeps h => callStep_tidy hq hdistinct hs hkeeps h)
      ⟨?_, ?_⟩ halong hrun
    · rw [hfresh]
      exact List.nodup_nil
    · rw [hfresh, hdeq]
      simp
  · have hlisted : ∃ l : List UInt32, s.deqConnection = l.map some :=
      Machine.invariant (I := fun s : Server => ∃ l : List UInt32, s.deqConnection = l.map some)
        (fun s call t hs h => hs.elim fun l hdeq => callStep_listed hq hdeq h) ⟨_, hdeq⟩ hrun
    obtain ⟨l, hl⟩ := hlisted
    obtain ⟨t, ht, _, _, hswept⟩ := messageAllClients_recorded hq msg ignore hl
    exact ⟨t, ht, ids_of_listed hl ▸ hswept.sent⟩

end Run

/-- Two connections, the first of them closed. -/
def firstClosed : Server :=
  { start (fun _ => 0) (fun _ => 0) fun _ => [] with
    deqConnection := [some 10000, some 10001]
    closed := [10000] }

/-- A broadcast drops it. -/
theorem broadcast_drops : ∃ s, Machine.run (callStep fun _ s => .ok s) firstClosed
      [.messageAllClients (.ofID .serverShyConnectionCheck) none] = some s ∧ Tidy firstClosed s := by
  have hrun : (Machine.run (callStep fun _ s => .ok s) firstClosed
      [.messageAllClients (.ofID .serverShyConnectionCheck) none]).isSome = true := by decide +kernel
  obtain ⟨s, hs⟩ := Option.isSome_iff_exists.mp hrun
  have hquiet : Quiet fun _ s => .ok s := fun _ s => ⟨_, _, _, _, rfl⟩
  refine ⟨s, hs, (dropped_once_iff hquiet (by decide) (by decide) rfl hs).1.mpr ?_⟩
  exact ⟨id, fun _ _ => trivial⟩

/-- `MessageClient` keeps it, and it is found closed once more. -/
theorem messageClient_keeps : ∃ s, Machine.run (callStep fun _ s => .ok s) firstClosed
      [.messageClient (some 10000) (.ofID .serverPing)] = some s ∧
    s.deqConnection = [some 10000, some 10001] ∧ s.found = [10000] ∧ ¬ Tidy firstClosed s ∧
    ∃ t, callStep (fun _ s => .ok s) s (.messageAllClients (.ofID .serverShyConnectionCheck) none) =
      some t ∧ t.found = [10000, 10000] := by
  have hrun : ((Machine.run (callStep fun _ s => .ok s) firstClosed
      [.messageClient (some 10000) (.ofID .serverPing)]).map fun s => (s.deqConnection, s.found,
        (callStep (fun _ s => .ok s) s (.messageAllClients (.ofID .serverShyConnectionCheck) none)).map
          found)) = some ([some 10000, some 10001], [10000], some [10000, 10000]) := by decide +kernel
  obtain ⟨s, hs, h⟩ := Option.map_eq_some_iff.mp hrun
  simp only [Prod.mk.injEq] at h
  obtain ⟨hdeq, hfound, hnext⟩ := h
  refine ⟨s, hs, hdeq, hfound, fun htidy => htidy.not_untidy (Or.inr ⟨10000, ?_, ?_⟩),
    Option.map_eq_some_iff.mp hnext⟩
  · simp [hfound]
  · simp [hdeq]

end Server

end AsciiTerra
