import AsciiTerra.InformedClients

/-!
# Informed clients in every run

A registration sends the new client the enemies and the other players and tells the others of
it. With honest clients every client registers once, so a player that was removed does not
come back, and from its registration on no client is sent a reference that it does not know.
-/

set_option autoImplicit false

namespace AsciiTerra

namespace Server
variable {s t : Server} {R : UInt32 → Prop} {D D' : UInt32 → Units}
variable {order : Arrangement (OrderedMap.Entry UInt32 Player)} {map : Map}

open Outcome (Post)

def clientAddPlayer (desc : Player) : Message :=
  (Message.ofID .clientAddPlayer).push Layout.player desc

theorem teaches_clientAddPlayer (u : Units) (desc : Player) :
    Teaches u ⟨fun id => u.players id ∨ id = desc.id, u.enemies⟩ (clientAddPlayer desc) :=
  teaches_player (Or.inr (by simp [clientAddPlayer])) (Message.pop_push ..)

theorem not_registers_clientAddPlayer (desc : Player) : ¬ (clientAddPlayer desc).Registers := by
  simp [clientAddPlayer, Message.Registers]

/-- The clients of `V` other than the ignored one know of player `id` too. -/
def AndPlayer (V : UInt32 → Prop) (ignore : Option UInt32) (id : UInt32) (D : UInt32 → Units) :
    UInt32 → Units :=
  fun e => ⟨fun a => (D e).players a ∨ (V e ∧ some e ≠ ignore ∧ a = id), (D e).enemies⟩

theorem Informed.andPlayer_mono {V W : UInt32 → Prop} {ignore : Option UInt32} {id : UInt32}
    (h : Informed order map R (AndPlayer V ignore id D) s)
    (hV : ∀ e, e ∉ s.closed → W e → some e ≠ ignore → V e) :
    Informed order map R (AndPlayer W ignore id D) s := by
  apply h.mono
  intro e he _ c hc
  refine hc.mono (fun a ha => ?_) le_rfl
  exact ha.imp_right fun ⟨hW, hignore, ha⟩ => ⟨hV e he hW hignore, hignore, ha⟩

theorem Informed.update_players {c : UInt32} {P Q : UInt32 → Prop} {n : Nat}
    (h : Informed order map R (Function.update D c ⟨P, n⟩) t) (hPQ : ∀ a, Q a → P a) :
    Informed order map R (Function.update D c ⟨Q, n⟩) t := by
  apply h.mono
  intro e _ _ cl hcl
  by_cases he : e = c
  · subst he
    rw [Function.update_self] at hcl ⊢
    exact hcl.mono hPQ le_rfl
  · rwa [Function.update_of_ne he] at hcl ⊢

/-- The entries before index `k`. -/
def Before (k : Nat) (s : Server) (e : UInt32) : Prop := ∃ j < k, s.deqConnection[j]? = some (some e)

section Hook
variable {hook : Option UInt32 → Server → Outcome Fault Server} (hh : Informs order map hook)
variable (hspec : HookSpec hook)
include hh hspec

theorem addPlayer_entry {desc : Player} {ignore : Option UInt32} {b : Bool} {k : Nat}
    (hwf : s.WellFormed) (hs : Informed order map R (AndPlayer (Before k s) ignore desc.id D) s)
    (henough : Enough D s.gameWorld.enemyList.length s) :
    Post (fun st => Informed order map R (AndPlayer (Before (k + 1) st.1) ignore desc.id D) st.1)
      (messageEntry hook (clientAddPlayer desc) ignore (s, b) k) := by
  have hlater : s.closed ⊆ s.tick.closed := List.subset_append_right _ _
  have htick : Informed order map R (AndPlayer (Before k s) ignore desc.id D) s.tick :=
    hs.congr rfl hlater
  have hwft := (Continues.tick hwf).wellFormed
  -- an entry before the next one is this one or before it
  have hnext (u : Server) (hu : u.deqConnection = s.deqConnection) {c e : UInt32}
      (hk : s.deqConnection[k]? = some (some c)) (he : Before (k + 1) u e) :
      e = c ∨ Before k s e := by
    obtain ⟨j, hj, hje⟩ := he
    rw [hu] at hje
    by_cases hjk : j = k
    · subst hjk
      exact .inl (Option.some.inj (Option.some.inj (hje.symm.trans hk)))
    · exact .inr ⟨j, by omega, hje⟩
  refine messageEntry_post (hh.smalls none).null ?_ ?_ ?_
  · intro c hk hup
    have hids : c ∈ s.tick.ids := mem_ids.mpr (List.mem_of_getElem? hk)
    have henough' : Enough (AndPlayer (Before k s) ignore desc.id D)
        s.tick.gameWorld.enemyList.length s.tick := henough.mono hlater le_rfl
    refine ((hh.informed R _ c s.tick hup htick henough').and
      (hspec.disconnected c s.tick hwft (hwft.accepted c hids) hup)).mono ?_
    rintro t ⟨ht, hd⟩ hlength
    have hdeq : t.deqConnection = s.deqConnection := hd.deqConnection.eq_of_length hlength
    have hreset : Informed order map R (AndPlayer (Before k s) ignore desc.id D) (t.resetAt k) :=
      ht.congr rfl (List.Subset.refl _)
    refine hreset.andPlayer_mono fun e _ he _ => ?_
    obtain ⟨j, hj, hje⟩ := he
    simp only [resetAt, hdeq] at hje
    by_cases hjk : k = j
    · subst hjk
      rw [List.getElem?_set_self'] at hje
      simp [hk] at hje
    · rw [List.getElem?_set_ne hjk] at hje
      exact ⟨j, by omega, hje⟩
  · intro c hk hup _
    have hsent := htick.send hup
      (fun _ => teaches_clientAddPlayer (AndPlayer (Before k s) ignore desc.id D c) desc)
      fun hr => absurd hr (not_registers_clientAddPlayer desc)
    apply hsent.mono
    intro e _ _ cl hcl
    by_cases he : e = c
    · subst he
      rw [Function.update_self] at hcl
      refine hcl.mono (fun a ha => ?_) le_rfl
      exact ha.elim (fun ha => Or.inl (Or.inl ha)) fun ha => Or.inr ha.2.2
    · rw [Function.update_of_ne he] at hcl
      refine hcl.mono (fun a ha => ha.imp_right ?_) le_rfl
      rintro ⟨hbefore, hignore, ha⟩
      exact ⟨(hnext _ rfl hk hbefore).resolve_left he, hignore, ha⟩
  · intro c hk _ hignored
    refine htick.andPlayer_mono fun e _ he hne => (hnext _ rfl hk he).resolve_left ?_
    rintro rfl
    exact hne hignored

/-- After the broadcast of `ClientAddPlayer` every connection of the list knows of the player. -/
theorem addPlayer_informed {desc : Player} {ignore : Option UInt32} (hwf : s.WellFormed)
    (hs : Informed order map R D s) (henough : Enough D s.gameWorld.enemyList.length s) :
    Post (fun t => Informed order map R (AndPlayer (· ∈ t.ids) ignore desc.id D) t)
      (messageAllClients hook (clientAddPlayer desc) ignore s) := by
  have hstart : Informed order map R (AndPlayer (Before 0 s) ignore desc.id D) s := by
    apply hs.mono
    intro e _ _ c hc
    refine hc.mono (fun a ha => ha.elim id fun ⟨⟨j, hj, _⟩, _⟩ => ?_) le_rfl
    exact absurd hj (Nat.not_lt_zero j)
  have hloop := Post.foldlM_range (n := s.deqConnection.length) (s := (s, false))
    (f := messageEntry hook (clientAddPlayer desc) ignore)
    (I := fun k (st : Server × Bool) => Looped s st ∧ Later s st.1 ∧
      Informed order map R (AndPlayer (Before k st.1) ignore desc.id D) st.1)
    ⟨⟨.refl hwf, .refl _, fun _ => rfl, .refl s⟩, .refl s, hstart⟩
    fun k st _ ⟨hlooped, hlater, hst⟩ => by
      have hentry : Post (fun st' : Server × Bool =>
          Informed order map R (AndPlayer (Before (k + 1) st'.1) ignore desc.id D) st'.1)
          (messageEntry hook (clientAddPlayer desc) ignore st k) :=
        addPlayer_entry hh hspec hlooped.wellFormed hst (henough.later hlater)
      have hsmalls : Post (fun st' : Server × Bool => Smalls none st.1 st'.1)
          (messageEntry hook (clientAddPlayer desc) ignore st k) := messageEntry_smalls (hh.smalls none)
      refine ((messageEntry_spec hspec hlooped).and (hsmalls.and hentry)).mono ?_
      exact fun st' ⟨hlooped', hs', hst'⟩ => ⟨hlooped', hlater.trans hs'.later, hst'⟩
  refine Post.bind hloop fun st ⟨hlooped, _, hst⟩ => Post.of_ok ?_
  have hlength : st.1.deqConnection.length = s.deqConnection.length := hlooped.blanked.length_eq.symm
  have hall : ∀ e, some e ∈ st.1.deqConnection → Before s.deqConnection.length st.1 e := by
    intro e he
    obtain ⟨j, hj⟩ := List.mem_iff_getElem?.mp he
    refine ⟨j, ?_, hj⟩
    rw [← hlength]
    exact (List.getElem?_eq_some_iff.mp hj).1
  split
  · have herased : Informed order map R
        (AndPlayer (Before s.deqConnection.length st.1) ignore desc.id D) st.1.eraseNulls :=
      hst.congr rfl (List.Subset.refl _)
    exact herased.andPlayer_mono fun e _ he _ => hall e (List.mem_of_mem_filter (mem_ids.mp he))
  · exact hst.andPlayer_mono fun e _ he _ => hall e (mem_ids.mp he)

theorem tell_informed {c : UInt32} {u v : Units} {msg : Message} (hwf : t.WellFormed)
    (hc : t.Accepted c) (hs : Informed order map R (Function.update D c u) t)
    (henough : ∀ e, t.gameWorld.enemyList.length ≤ (D e).enemies) (hteach : Teaches u v msg)
    (hreg : msg.Registers → R c) :
    Post (fun t' => Informed order map R (Function.update D c v) t' ∧ Messaged t t' ∧ Later t t')
      (messageClient hook (some c) msg t) := by
  have hothers : ∀ e, e ∉ t.closed → e ≠ c →
      t.gameWorld.enemyList.length ≤ (Function.update D c u e).enemies := by
    intro e _ he
    rw [Function.update_of_ne he]
    exact henough e
  have hmsg : Teaches (Function.update D c u c) v msg := by rwa [Function.update_self]
  refine ((messageClient_informed hh hs hothers (fun _ => hmsg) hreg).and
    ((messageClient_spec hspec hwf hc).and (messageClient_later hh))).mono ?_
  intro t' ⟨ht', hmessaged, hlater⟩
  rw [Function.update_idem] at ht'
  exact ⟨ht', hmessaged, hlater⟩

theorem sendEnemies_informed {c : UInt32} (hwf : t.WellFormed) (hc : t.Accepted c)
    (hs : Informed order map R (Function.update D c ⟨(· = c), 0⟩) t)
    (henough : ∀ e, t.gameWorld.enemyList.length ≤ (D e).enemies) (n : Nat) :
    Post (fun t' => Informed order map R (Function.update D c ⟨(· = c), n⟩) t' ∧ Messaged t t' ∧
      Later t t') ((List.range n).foldlM (sendEnemy hook c) t) := by
  refine Post.foldlM_range (I := fun i t' => Informed order map R (Function.update D c ⟨(· = c), i⟩) t' ∧
    Messaged t t' ∧ Later t t') ⟨hs, .refl hwf, .refl t⟩ fun i t' _ hsent => ?_
  obtain ⟨ht', hmessaged, hlater⟩ := hsent
  unfold sendEnemy
  split
  · exact Post.of_fault
  · rename_i enemy _
    refine (tell_informed hh hspec hmessaged.wellFormed (hmessaged.accepted hc) ht'
      (fun e => hlater.enemies.trans (henough e)) (teaches_enemy enemy) fun hr => ?_).mono ?_
    · simp [Message.Registers] at hr
    · rintro t'' ⟨h, hmessaged', hlater'⟩
      exact ⟨h, hmessaged.trans hmessaged', hlater.trans hlater'⟩

theorem sendOtherPlayer_informed {c key : UInt32} {p : Player} {n : Nat} {done : List UInt32}
    (hp : p.id = c) (hwf : t.WellFormed) (hc : t.Accepted c)
    (hs : Informed order map R (Function.update D c
      ⟨fun a => a = c ∨ (a ∈ done ∧ a ∈ t.gameWorld.playersList), n⟩) t)
    (henough : ∀ e, t.gameWorld.enemyList.length ≤ (D e).enemies) :
    Post (fun t' => Informed order map R (Function.update D c
        ⟨fun a => a = c ∨ (a ∈ done ++ [key] ∧ a ∈ t'.gameWorld.playersList), n⟩) t' ∧
      Messaged t t' ∧ Later t t')
      (sendOtherPlayer hook c p t key) := by
  unfold sendOtherPlayer
  split
  · rename_i hnone
    refine Post.of_ok ⟨hs.update_players fun a ha => ?_, .refl hwf, .refl t⟩
    refine ha.imp_right fun ⟨hmem, hplayer⟩ => ⟨?_, hplayer⟩
    rcases List.mem_append.mp hmem with hmem | hmem
    · exact hmem
    · obtain ⟨q, hq⟩ := OrderedMap.mem_iff_lookup.mp hplayer
      rw [List.mem_singleton.mp hmem, hnone] at hq
      cases hq
  · rename_i player hplayer
    have hkey : player.id = key := hwf.keysAreIDs.id_eq hplayer
    split
    · rename_i hid
      refine Post.of_ok ⟨hs.update_players fun a ha => ?_, .refl hwf, .refl t⟩
      rcases ha with ha | ⟨hmem, ha⟩
      · exact Or.inl ha
      · rcases List.mem_append.mp hmem with hmem | hmem
        · exact Or.inr ⟨hmem, ha⟩
        · left
          rw [List.mem_singleton.mp hmem, ← hkey, hid, hp]
    · refine Post.bind (tell_informed hh hspec hwf hc hs henough (teaches_clientAddPlayer _ player)
        fun hr => absurd hr (not_registers_clientAddPlayer player)) fun t'' ⟨h, hm, hl⟩ => ?_
      split
      · refine Post.of_ok ⟨h.update_players fun a ha => ?_, hm, hl⟩
        rcases ha with ha | ⟨hmem, ha⟩
        · exact Or.inl (Or.inl ha)
        · rcases List.mem_append.mp hmem with hmem | hmem
          · exact Or.inl (Or.inr ⟨hmem, hm.players a ha⟩)
          · rw [List.mem_singleton.mp hmem, ← hkey]
            exact Or.inr rfl
      · exact Post.of_fault

theorem sendOtherPlayers_informed {c : UInt32} {p : Player} {n : Nat} (hp : p.id = c)
    (hwf : t.WellFormed) (hc : t.Accepted c)
    (hs : Informed order map R (Function.update D c ⟨(· = c), n⟩) t)
    (henough : ∀ e, t.gameWorld.enemyList.length ≤ (D e).enemies) :
    Post (fun t' => Informed order map R
        (Function.update D c ⟨fun a => a = c ∨ a ∈ t'.gameWorld.playersList, n⟩) t' ∧
      Messaged t t' ∧ Later t t')
      (t.gameWorld.playersList.keys.foldlM (sendOtherPlayer hook c p) t) := by
  have hloop := Post.foldlM_prefix (l := t.gameWorld.playersList.keys) (s := t)
    (f := sendOtherPlayer hook c p)
    (I := fun done t' => Informed order map R (Function.update D c
        ⟨fun a => a = c ∨ (a ∈ done ∧ a ∈ t'.gameWorld.playersList), n⟩) t' ∧
      Messaged t t' ∧ Later t t')
    ⟨hs.update_players fun a ha => ha.elim id fun ha => absurd ha.1 List.not_mem_nil, .refl hwf,
      .refl t⟩ fun before key after t' _ ⟨ht', hmessaged, hlater⟩ => by
      refine (sendOtherPlayer_informed hh hspec hp hmessaged.wellFormed (hmessaged.accepted hc) ht'
        fun e => hlater.enemies.trans (henough e)).mono ?_
      rintro t'' ⟨h, hmessaged', hlater'⟩
      exact ⟨h, hmessaged.trans hmessaged', hlater.trans hlater'⟩
  refine hloop.mono fun t' ⟨ht', hmessaged, hlater⟩ =>
    ⟨ht'.update_players fun a ha => ?_, hmessaged, hlater⟩
  exact ha.imp_right fun ha => ⟨AList.mem_keys.mp (hmessaged.players a ha), ha⟩

def units (s : Server) : Units := ⟨(· ∈ s.gameWorld.playersList), s.gameWorld.enemyList.length⟩

/-- After the messages of its registration the new client is informed like the others. -/
theorem announce_informed {c : UInt32} {p : Player} {P : UInt32 → Prop} {n : Nat} (hp : p.id = c)
    (hs : Informed order map R (Function.update (fun _ => ⟨P, n⟩) c ⟨fun _ => False, 0⟩) s)
    (hn : s.gameWorld.enemyList.length ≤ n) (hRc : R c)
    (hfirst : Post (fun t => t.WellFormed ∧ (∀ e, R e → t.Accepted e) ∧
        ∀ id ∈ t.gameWorld.playersList, id = c ∨ P id)
      (messageClient hook (some c)
        ((Message.ofID .clientRegisterFromServer).push Layout.player p) s)) :
    Post (fun t => Informed order map R (fun _ => t.units) t ∧ t.WellFormed)
      (s.announce hook c p) := by
  let D : UInt32 → Units := fun _ => ⟨P, n⟩
  have hothers : ∀ e, e ∉ s.closed → e ≠ c → s.gameWorld.enemyList.length ≤
      (Function.update D c ⟨fun _ => False, 0⟩ e).enemies := by
    intro e _ he
    rw [Function.update_of_ne he]
    exact hn
  have hregister : Teaches (Function.update D c ⟨fun _ => False, 0⟩ c) ⟨(· = c), 0⟩
      ((Message.ofID .clientRegisterFromServer).push Layout.player p) := by
    rw [Function.update_self]
    obtain ⟨hrefers, hlearns⟩ := teaches_player (u := ⟨fun _ => False, 0⟩) (Or.inl (by simp))
      (Message.pop_push Layout.player p (Message.ofID .clientRegisterFromServer))
    refine ⟨hrefers, fun order cl cl' hcl hok => (hlearns order cl cl' hcl hok).mono ?_ le_rfl⟩
    exact fun a ha => Or.inr (ha.trans hp.symm)
  refine Post.bind ((messageClient_informed hh hs hothers (fun _ => hregister) fun _ => hRc).and
    (hfirst.and (messageClient_later hh))) fun t1 hpost1 => ?_
  obtain ⟨h1, ⟨hwf1, hR1, hplayers1⟩, hlater1⟩ := hpost1
  rw [Function.update_idem] at h1
  have hn1 : ∀ e, t1.gameWorld.enemyList.length ≤ (D e).enemies := fun _ => hlater1.enemies.trans hn
  have hmap : ((Message.ofID .clientUpdateMap).push Layout.map t1.gameWorld.gameWorldMap).Plain :=
    plain_of_kind .clientUpdateMap (by simp) (by decide)
  refine Post.bind (tell_informed hh hspec hwf1 (hR1 c hRc) h1 hn1 (hmap.teaches _) fun hr => ?_)
    fun t2 hpost2 => ?_
  · simp [Message.Registers] at hr
  obtain ⟨h2, hm2, hl2⟩ := hpost2
  have hn2 : ∀ e, t2.gameWorld.enemyList.length ≤ (D e).enemies := fun e => hl2.enemies.trans (hn1 e)
  refine Post.bind (sendEnemies_informed hh hspec hm2.wellFormed (hm2.accepted (hR1 c hRc)) h2 hn2
    t2.gameWorld.enemyList.length) fun t3 hpost3 => ?_
  obtain ⟨h3, hm3, hl3⟩ := hpost3
  have henough3 : Enough (Function.update D c ⟨(· = c), t2.gameWorld.enemyList.length⟩)
      t3.gameWorld.enemyList.length t3 := by
    intro e _
    by_cases he : e = c
    · subst he
      rw [Function.update_self]
      exact hl3.enemies
    · rw [Function.update_of_ne he]
      exact hl3.enemies.trans (hn2 e)
  refine Post.bind ((addPlayer_informed hh hspec hm3.wellFormed h3 henough3).and
    ((messageAllClients_spec hspec hm3.wellFormed).and (messageAllClients_later hh)))
    fun t4 hpost4 => ?_
  obtain ⟨h4, hm4, hl4⟩ := hpost4
  have hnews : Informed order map R (Function.update (AndPlayer (· ∈ t4.ids) (some c) p.id D) c
      ⟨(· = c), t2.gameWorld.enemyList.length⟩) t4 := by
    apply h4.mono
    intro e _ _ cl hcl
    by_cases he : e = c
    · subst he
      rw [Function.update_self]
      unfold AndPlayer at hcl
      rw [Function.update_self] at hcl
      exact hcl.mono (fun a ha => Or.inl ha) le_rfl
    · rw [Function.update_of_ne he]
      unfold AndPlayer at hcl ⊢
      rwa [Function.update_of_ne he] at hcl
  have hn4 : ∀ e, t4.gameWorld.enemyList.length ≤
      (AndPlayer (· ∈ t4.ids) (some c) p.id D e).enemies := fun e =>
    (hl4.enemies.trans hl3.enemies).trans (hn2 e)
  have hm14 := (hm2.trans hm3).trans hm4
  refine (sendOtherPlayers_informed hh hspec hp hm4.wellFormed (hm14.accepted (hR1 c hRc)) hnews
    hn4).mono fun t5 hpost5 => ?_
  obtain ⟨h5, hm5, hl5⟩ := hpost5
  refine ⟨?_, hm5.wellFormed⟩
  apply h5.mono
  intro e he hR cl hcl
  have hlater := hl4.trans hl5
  by_cases hec : e = c
  · subst hec
    rw [Function.update_self] at hcl
    exact hcl.mono (fun a ha => Or.inr ha) ((hl3.trans hlater).enemies)
  · rw [Function.update_of_ne hec] at hcl
    refine hcl.mono (fun a ha => ?_) (((hl3.trans hlater).enemies).trans (hn2 e))
    rcases hplayers1 a ((hm14.trans hm5).players a ha) with rfl | hP
    · right
      refine ⟨?_, fun heq => hec (Option.some.inj heq), hp.symm⟩
      rcases hm4.wellFormed.gone e (hm14.accepted (hR1 e hR)) with hids | hgone
      · exact hids
      · exact absurd (hl5.closed hgone) he
    · exact Or.inl hP

end Hook

end Server

end AsciiTerra
