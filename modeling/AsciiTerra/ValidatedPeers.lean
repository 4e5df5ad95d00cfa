import AsciiTerra.Handlers
import AsciiTerra.SmallSteps

/-!
# Whom the server broadcasts to

`async_accept` lists a connection before its handshake has begun, so `m_deqConnection` holds
validated connections only while no handshake is under way. Messages go to listed
connections whose socket is open.
-/

set_option autoImplicit false

namespace AsciiTerra

namespace Server
variable {s t : Server}

open Outcome (Post)

/-- From `s` on, messages were only sent to connections that were listed and open there. -/
structure SendsListed (s t : Server) : Prop where
  ids : ∀ c ∈ t.ids, c ∈ s.ids
  closed : s.closed ⊆ t.closed
  sent : ∃ new, t.sent = s.sent ++ new ∧ ∀ e ∈ new, e.1 ∈ s.ids ∧ e.1 ∉ s.closed

theorem SendsListed.refl (s : Server) : SendsListed s s :=
  ⟨fun _ hc => hc, List.Subset.refl _, [], by simp, by simp⟩

theorem SendsListed.of_sent {u : Server} (h : SendsListed s t) (hids : ∀ c ∈ u.ids, c ∈ t.ids)
    (hclosed : t.closed ⊆ u.closed) (hsent : u.sent = t.sent) : SendsListed s u :=
  ⟨fun c hc => h.ids c (hids c hc), List.Subset.trans h.closed hclosed, hsent ▸ h.sent⟩

theorem SendsListed.small {u : Server} (h : SendsListed s t) (hstep : Small none t u) :
    SendsListed s u := by
  have hclosed := hstep.closed
  cases hstep with
  | @send c msg hc hup =>
    obtain ⟨new, hsent, hnew⟩ := h.sent
    refine ⟨h.ids, h.closed, new ++ [(c, msg)], ?_, fun e he => ?_⟩
    · simp only [Server.send, hsent, List.append_assoc]
    · rcases List.mem_append.mp he with he | he
      · exact hnew e he
      · cases List.mem_singleton.mp he
        exact ⟨h.ids c (mem_ids.mpr (hc.resolve_right fun hnone => by cases hnone)),
          fun hmem => hup (h.closed hmem)⟩
  | eraseNulls =>
    exact h.of_sent (fun c hc => mem_ids.mpr (List.mem_of_mem_filter (mem_ids.mp hc))) hclosed rfl
  | resetAt i => exact h.of_sent (fun c hc => (reduceOption_set_none _ i).subset hc) hclosed rfl
  | resetTurn hreset =>
    unfold Server.resetTurn at hreset
    split at hreset
    · cases hreset
    · obtain ⟨player, _, hreset⟩ := Outcome.bind_eq_ok.mp hreset
      cases hreset
      exact h.of_sent (fun c hc => hc) (List.Subset.refl _) rfl
  | tick | choosing | enemies _ | removeDead | giveTo _ | removePlayer _ =>
    exact h.of_sent (fun c hc => hc) hclosed rfl

theorem messageAllClients_sendsListed (n : Nat) (msg : Message) (ignore : Option UInt32)
    (h : messageAllClients (onClientDisconnect n) msg ignore s = .ok t) : SendsListed s t :=
  Smalls.preserves (messageAllClients_smalls (onClientDisconnect_smalls n) t h)
    (fun _ _ => SendsListed.small) (.refl s)

/-- Every open connection of the list has passed its handshake in the run. -/
def ListedValidated (events : List Event) (s : Server) : Prop :=
  ∀ c ∈ s.ids, c ∉ s.closed → .validated c ∈ events

/-- Every connection that was accepted has been validated since, or it is closed. -/
def HandshakesOver (events : List Event) (s : Server) : Prop :=
  ∀ c, s.Accepted c → c ∉ s.closed → .validated c ∈ events

/-- The list holds validated connections exactly while no handshake is under way, and then
all that a broadcast sends goes to validated connections. -/
theorem listedValidated_iff {mapRand enemyRand : Nat → Nat} {closing : Nat → List UInt32}
    {events : List Event}
    (hrun : Machine.run step (start mapRand enemyRand closing) events = some s) :
    (ListedValidated events s ↔ HandshakesOver events s) ∧
    (HandshakesOver events s → ∀ n msg ignore t,
      messageAllClients (onClientDisconnect n) msg ignore s = .ok t →
      ∀ e ∈ t.sent.drop s.sent.length, .validated e.1 ∈ events) := by
  have hwf := (Reachable.idle ⟨mapRand, enemyRand, closing, events, hrun⟩).wellFormed
  have hiff : ListedValidated events s ↔ HandshakesOver events s := by
    constructor
    · intro h c hc hopen
      exact h c ((hwf.gone c hc).resolve_right hopen) hopen
    · intro h c hc hopen
      exact h c (hwf.accepted c hc) hopen
  refine ⟨hiff, fun hover n msg ignore t ht e he => ?_⟩
  obtain ⟨new, hsent, hnew⟩ := (messageAllClients_sendsListed n msg ignore ht).sent
  rw [hsent, List.drop_left] at he
  obtain ⟨hlisted, hopen⟩ := hnew e he
  exact hiff.mpr hover e.1 hlisted hopen

/-- A client that has only been accepted gets the connection check. -/
theorem accepted_broadcast : ∃ s, Machine.run step (start (fun _ => 0) (fun _ => 0) fun _ => [])
      [.accept, .shyCheck 0] = some s ∧
    ¬ ListedValidated [.accept, .shyCheck 0] s ∧
      (10000, Message.ofID .serverShyConnectionCheck) ∈ s.sent := by
  have hrun : ((Machine.run step (start (fun _ => 0) (fun _ => 0) fun _ => [])
      [.accept, .shyCheck 0]).map fun s => (s.ids, s.closed, s.sent)) =
      some ([10000], [], [(10000, .ofID .serverAccept), (10000, .ofID .serverShyConnectionCheck)]) := by
    decide +kernel
  obtain ⟨s, hs, h⟩ := Option.map_eq_some_iff.mp hrun
  simp only [Prod.mk.injEq] at h
  obtain ⟨hids, hclosed, hsent⟩ := h
  refine ⟨s, hs, fun hlisted => ?_, by simp [hsent]⟩
  have hbad := hlisted 10000 (by simp [hids]) (by simp [hclosed])
  simp at hbad

/-- After the validation the list is in order. -/
theorem accepted_validated : ∃ s, Machine.run step (start (fun _ => 0) (fun _ => 0) fun _ => [])
      [.accept, .validated 10000] = some s ∧ ListedValidated [.accept, .validated 10000] s := by
  have hrun : ((Machine.run step (start (fun _ => 0) (fun _ => 0) fun _ => [])
      [.accept, .validated 10000]).map fun s => s.nIDCounter) = some 10001 := by decide +kernel
  obtain ⟨s, hs, hcounter⟩ := Option.map_eq_some_iff.mp hrun
  refine ⟨s, hs, (listedValidated_iff hs).1.mpr fun c hc _ => ?_⟩
  obtain ⟨hlow, hhigh⟩ := hc
  have heq : c = 10000 := UInt32.toNat_inj.mp (by simp; omega)
  simp [heq]

end Server

end AsciiTerra
