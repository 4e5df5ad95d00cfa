import AsciiTerra.Broadcast

/-!
# Broadcasts in the turn of a player

Up to the entry of the player that holds the turn a broadcast makes no nested call: closed
connections leave, and their players with them. What happens at the entry of the holder is
up to `OnClientDisconnect`.
-/

set_option autoImplicit false

namespace AsciiTerra

def GameWorld.without (gone : List UInt32) (w : GameWorld) : GameWorld :=
  { w with playersList := gone.foldl (fun players c => players.erase c) w.playersList }

namespace GameWorld

@[simp] theorem without_nil (w : GameWorld) : w.without [] = w := rfl

theorem without_append (gone : List UInt32) (c : UInt32) (w : GameWorld) :
    w.without (gone ++ [c]) =
      { w.without gone with playersList := (w.without gone).playersList.erase c } := by
  simp only [without, List.foldl_append, List.foldl_cons, List.foldl_nil]

theorem lookup_without {gone : List UInt32} {id : UInt32} (h : id ∉ gone) (w : GameWorld) :
    (w.without gone).playersList.lookup id = w.playersList.lookup id := by
  unfold without
  generalize w.playersList = players
  induction gone generalizing players with
  | nil => rfl
  | cons c gone ih =>
    obtain ⟨hne, hgone⟩ := not_or.mp fun hor => h (List.mem_cons.mpr hor)
    exact (ih hgone (players.erase c)).trans (AList.lookup_erase_ne hne)

theorem erase_of_not_mem {players : PlayersList} {c : UInt32} (h : c ∉ players) :
    players.erase c = players :=
  AList.ext (List.kerase_of_notMem_keys h)

end GameWorld

namespace Server
variable {s t : Server} {c : UInt32}

open Outcome (Post)

theorem holder_tame {clients : List UInt32} (hc : c ∉ clients) (w : GameWorld) :
    Tame (fun n => onClientDisconnect (n + 1)) clients fun gone u =>
      u.currentPlayerID = c ∧ u.gameWorld = w.without gone where
  call d hd gone u := by
    rintro ⟨hcur, hworld⟩ _
    have hne : d ≠ u.currentPlayerID := fun heq => hc (hcur ▸ heq ▸ hd)
    by_cases hmem : d ∈ u.gameWorld.playersList
    · refine ⟨u.removePlayer d, fun _ => onClientDisconnect_of_ne hmem hne, ⟨rfl, rfl, rfl⟩,
        rfl, rfl, hcur, ?_⟩
      rw [GameWorld.without_append, ← hworld]
      rfl
    · refine ⟨u, fun _ => onClientDisconnect_of_not_mem hmem, .refl u, rfl, rfl, hcur, ?_⟩
      rw [GameWorld.without_append, ← hworld, GameWorld.erase_of_not_mem hmem]
  tick _ _ h := h
  send _ _ _ _ h := h
  resetAt _ _ _ h := h
  eraseNulls _ _ h := h

/-- The loop has come to the entry of the holder `c`, after the entries of `pre`. -/
structure AtHolder (c : UInt32) (pre post : List UInt32) (s u : Server) : Prop where
  looped : s.WellFormed → Looped s (u, !(failing pre s).isEmpty)
  deqConnection : u.deqConnection = blanked pre s ++ some c :: post.map some
  currentPlayerID : u.currentPlayerID = c
  gameWorld : u.gameWorld = s.gameWorld.without (failing pre s)
  sockets : SameSockets u (tick^[pre.length] s)

theorem AtHolder.entry {pre post : List UInt32} {u : Server} (h : AtHolder c pre post s u) :
    u.deqConnection[pre.length]? = some (some c) := by
  rw [h.deqConnection, ← blanked_length pre s]
  simp

theorem messageAllClients_split (hnull : none ∉ s.deqConnection) {pre post : List UInt32}
    (hids : s.ids = pre ++ c :: post) (hpre : c ∉ pre) (hcur : s.currentPlayerID = c)
    (msg : Message) (ignore : Option UInt32) :
    ∃ u, AtHolder c pre post s u ∧ ∀ n,
      messageAllClients (onClientDisconnect (n + 1)) msg ignore s =
      ((messageEntry (onClientDisconnect (n + 1)) msg ignore (u, !(failing pre s).isEmpty) pre.length >>=
        fun st => (List.range' (pre.length + 1) post.length).foldlM
          (messageEntry (onClientDisconnect (n + 1)) msg ignore) st) >>= fun st =>
        .ok (if st.2 then st.1.eraseNulls else st.1)) := by
  have hdeq : s.deqConnection = [] ++ (pre.map some ++ some c :: post.map some) := by
    rw [listed_ids hnull, hids, List.map_append, List.map_cons, List.nil_append]
  have htame := holder_tame (fun hin => hpre ((failing_sublist pre s).subset hin)) s.gameWorld
  obtain ⟨u, hu, hdequ, ⟨hcuru, hworld⟩, hswept⟩ :=
    loop_swept (b := false) msg ignore [] htame ⟨hcur, rfl⟩ (.refl s) hdeq
  rw [List.nil_append] at hdequ hworld
  rw [Bool.false_or] at hu
  refine ⟨u, ⟨fun h => ?_, hdequ, hcuru, hworld, hswept.sockets⟩, fun n => ?_⟩
  · have hstart : Looped s (s, false) := ⟨.refl h, .refl _, fun _ => rfl, .refl s⟩
    exact Post.foldlM hstart (fun st i _ => messageEntry_spec (onClientDisconnect_spec 1)) _ (hu 0)
  · have hlength : s.deqConnection.length = pre.length + (post.length + 1) := by simp [hdeq]
    unfold messageAllClients
    rw [hlength, List.range_eq_range', ← List.range'_append_1, Nat.zero_add, List.foldlM_append,
      List.range'_succ]
    have hfirst := hu n
    rw [List.length_nil] at hfirst
    rw [hfirst, Outcome.ok_bind, List.foldlM_cons]

end Server

end AsciiTerra
