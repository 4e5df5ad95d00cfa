import AsciiTerra.ClientStream
import AsciiTerra.AITurnBroadcast

/-!
# References to units

Broadcasts go to every entry of `m_deqConnection` from the moment of `accept`, the world only
to a client that registers. From its registration on, a client is told of every player and of
every enemy before a message names it.
-/

set_option autoImplicit false

namespace AsciiTerra

/-- The message is one that names units which the client looks up. -/
def Message.NamesUnits (msg : Message) : Prop :=
  ECustomMetaMSG.ofCode msg.header.id = some .gameAITurnAction ∨
  ECustomMetaMSG.ofCode msg.header.id = some .gameNextPlayerTurn ∨
  ECustomMetaMSG.ofCode msg.header.id = some .serverMessage

instance (msg : Message) : Decidable msg.NamesUnits := inferInstanceAs (Decidable (_ ∨ _ ∨ _))

/-- The enemy or the player that the message names is in the client's copy. -/
structure Client.Refers (msg : Message) (c : Client) : Prop where
  enemy : ECustomMetaMSG.ofCode msg.header.id = some .gameAITurnAction →
    ∀ action rest, msg.pop Layout.enemyAction = .ok (action, rest) →
      action.enemyID.toNat < c.gameWorld.enemyList.length
  player : ECustomMetaMSG.ofCode msg.header.id = some .gameNextPlayerTurn ∨
      ECustomMetaMSG.ofCode msg.header.id = some .serverMessage →
    ∀ id rest, msg.pop Codec.u32 = .ok (id, rest) → id ∈ c.gameWorld.playersList

theorem Client.refers_of_not {msg : Message} (h : ¬ msg.NamesUnits) (c : Client) : c.Refers msg :=
  ⟨fun henemy => absurd (Or.inl henemy) h, fun hplayer => absurd (Or.inr hplayer) h⟩

/-- `ClientRegisterFromServer`. -/
def Message.Registers (msg : Message) : Prop :=
  ECustomMetaMSG.ofCode msg.header.id = some .clientRegisterFromServer

instance (msg : Message) : Decidable msg.Registers := inferInstanceAs (Decidable (_ = _))

def Registered (msgs : List Message) : Prop := ∃ msg ∈ msgs, msg.Registers

theorem registered_concat {msgs : List Message} {msg : Message} :
    Registered (msgs ++ [msg]) ↔ Registered msgs ∨ msg.Registers := by
  unfold Registered
  constructor
  · rintro ⟨m, hm, hr⟩
    rcases List.mem_append.mp hm with hm | hm
    · exact Or.inl ⟨m, hm, hr⟩
    · exact Or.inr (List.mem_singleton.mp hm ▸ hr)
  · rintro (⟨m, hm, hr⟩ | hr)
    · exact ⟨m, List.mem_append_left _ hm, hr⟩
    · exact ⟨msg, List.mem_append_right _ (List.mem_singleton_self msg), hr⟩

section Streams
variable (order : Arrangement (OrderedMap.Entry UInt32 Player)) (map : Map)

/-- Every message refers to units that the client has when it processes it. -/
def RefersOnly (msgs : List Message) : Prop :=
  ∀ before msg, before ++ [msg] <+: msgs → Knows order map (Client.Refers msg) before

/-- So does every message after the registration. -/
def RefersRegistered (msgs : List Message) : Prop :=
  ∀ before msg, before ++ [msg] <+: msgs → Registered before →
    Knows order map (Client.Refers msg) before

variable {order map} {msgs : List Message}

theorem RefersRegistered.concat {msg : Message} (h : RefersRegistered order map msgs)
    (hmsg : Registered msgs → Knows order map (Client.Refers msg) msgs) :
    RefersRegistered order map (msgs ++ [msg]) := by
  intro before m hprefix hregistered
  rcases List.prefix_concat_iff.mp hprefix with heq | hprefix
  · obtain ⟨rfl, hm⟩ := List.append_inj' heq rfl
    cases hm
    exact hmsg hregistered
  · exact h before m hprefix hregistered

end Streams

/-- No message names a unit before the client is registered. -/
def RegisteredFirst (msgs : List Message) : Prop :=
  ∀ msg ∈ msgs.takeWhile fun m => ¬ m.Registers, ¬ msg.NamesUnits

instance (msgs : List Message) : Decidable (RegisteredFirst msgs) :=
  inferInstanceAs (Decidable (∀ msg ∈ _, _))

theorem RefersRegistered.refersOnly {order : Arrangement (OrderedMap.Entry UInt32 Player)}
    {map : Map} {msgs : List Message} (h : RefersRegistered order map msgs)
    (hfirst : RegisteredFirst msgs) : RefersOnly order map msgs := by
  intro before msg hprefix
  by_cases hregistered : Registered before
  · exact h before msg hprefix hregistered
  · have hnames : ¬ msg.NamesUnits := by
      intro hnames
      have hbefore : ∀ m ∈ before ++ [msg], decide (¬ m.Registers) = true := by
        intro m hm
        apply decide_eq_true
        rcases List.mem_append.mp hm with hm | hm
        · exact fun hr => hregistered ⟨m, hm, hr⟩
        · rw [List.mem_singleton.mp hm]
          intro hr
          unfold Message.Registers at hr
          rcases hnames with hn | hn | hn
          · exact nomatch hr.symm.trans hn
          · exact nomatch hr.symm.trans hn
          · exact nomatch hr.symm.trans hn
      obtain ⟨rest, rfl⟩ := hprefix
      refine hfirst msg ?_ hnames
      rw [List.takeWhile_append_of_pos hbefore]
      exact List.mem_append_left _ (List.mem_append_right _ (List.mem_singleton_self msg))
    exact fun c _ => c.refers_of_not hnames

/-- A client that has `u` before the message finds what it names, and has `v` after it. -/
structure Teaches (u v : Units) (msg : Message) : Prop where
  refers : ∀ c : Client, c.Has u → c.Refers msg
  learns : ∀ order (c c' : Client), c.Has u → c.updatePlayer order msg = .ok c' → c'.Has v

theorem Teaches.of_refers {u : Units} {msg : Message} (hrefers : ∀ c : Client, c.Has u → c.Refers msg)
    (hremoves : RemovesNone u.players msg) : Teaches u u msg :=
  ⟨hrefers, fun _ _ _ h hok => Client.updatePlayer_units h hremoves hok⟩

/-- A message that names no unit and removes none. -/
def Message.Plain (msg : Message) : Prop :=
  ¬ msg.NamesUnits ∧ ECustomMetaMSG.ofCode msg.header.id ≠ some .gameRemovePlayer

theorem Message.Plain.teaches {msg : Message} (h : msg.Plain) (u : Units) : Teaches u u msg :=
  .of_refers (fun c _ => c.refers_of_not h.1) fun hid => absurd hid h.2

theorem plain_of_kind {msg : Message} (kind : ECustomMetaMSG)
    (hid : ECustomMetaMSG.ofCode msg.header.id = some kind) (hkind : kind ∉
      [.gameAITurnAction, .gameNextPlayerTurn, .serverMessage, .gameRemovePlayer]) : msg.Plain := by
  simp only [List.mem_cons, List.not_mem_nil, or_false, not_or] at hkind
  obtain ⟨hai, hnext, hmessage, hremove⟩ := hkind
  unfold Message.Plain Message.NamesUnits
  rw [hid]
  simp only [Option.some.injEq, ne_eq]
  exact ⟨fun h => h.elim hai fun h => h.elim hnext hmessage, hremove⟩

theorem teaches_player {u : Units} {msg : Message} {desc : Player}
    (hid : ECustomMetaMSG.ofCode msg.header.id = some .clientRegisterFromServer ∨
      ECustomMetaMSG.ofCode msg.header.id = some .clientAddPlayer)
    {rest : Message} (hpop : msg.pop Layout.player = .ok (desc, rest)) :
    Teaches u ⟨fun id => u.players id ∨ id = desc.id, u.enemies⟩ msg := by
  have hplain : msg.Plain := by
    rcases hid with hid | hid
    · exact plain_of_kind _ hid (by decide)
    · exact plain_of_kind _ hid (by decide)
  refine ⟨fun c _ => c.refers_of_not hplain.1, fun order c c' h hok => ?_⟩
  have hput : (c.putPlayer order desc).Has ⟨fun id => u.players id ∨ id = desc.id, u.enemies⟩ :=
    Client.putPlayer_units h desc
  unfold Client.updatePlayer at hok
  rcases hid with hid | hid
  · rw [hid] at hok
    simp only [hpop, except_ok_bind] at hok
    cases hok
    exact ⟨hput.players, hput.enemies⟩
  · rw [hid] at hok
    simp only [hpop, except_ok_bind] at hok
    cases hok
    exact hput

theorem teaches_enemy {u : Units} (enemy : Enemy) :
    Teaches u ⟨u.players, u.enemies + 1⟩ ((Message.ofID .clientInitEnemy).push Layout.enemy enemy) := by
  have hid : ECustomMetaMSG.ofCode ((Message.ofID .clientInitEnemy).push Layout.enemy enemy).header.id =
      some .clientInitEnemy := by simp
  have hplain := plain_of_kind _ hid (by decide)
  refine ⟨fun c _ => c.refers_of_not hplain.1, fun order c c' h hok => ?_⟩
  unfold Client.updatePlayer at hok
  rw [hid] at hok
  simp only [Message.pop_push, except_ok_bind] at hok
  cases hok
  refine ⟨h.players, ?_⟩
  simpa using h.enemies

theorem teaches_action {u : Units} {action : EnemyAction} (h : action.enemyID.toNat < u.enemies) :
    Teaches u u (gameAITurnAction action) := by
  refine .of_refers (fun c hc => ⟨fun _ a rest hpop => ?_, fun hid => ?_⟩) fun hid => ?_
  · unfold gameAITurnAction at hpop
    rw [Message.pop_push] at hpop
    cases hpop
    exact h.trans_le hc.enemies
  · simp [gameAITurnAction] at hid
  · simp [gameAITurnAction] at hid

theorem teaches_named {u : Units} {kind : ECustomMetaMSG} {id : UInt32} (h : u.players id)
    (hkind : kind = .gameNextPlayerTurn ∨ kind = .serverMessage) :
    Teaches u u ((Message.ofID kind).push Codec.u32 id) := by
  refine .of_refers (fun c hc => ⟨fun hid => ?_, fun _ a rest hpop => ?_⟩) fun hid => ?_
  · rcases hkind with rfl | rfl
    · simp at hid
    · simp at hid
  · rw [Message.pop_push] at hpop
    cases hpop
    exact hc.players id h
  · rcases hkind with rfl | rfl
    · simp at hid
    · simp at hid

theorem teaches_removal {u : Units} {id : UInt32} (h : ¬ u.players id) :
    Teaches u u ((Message.ofID .gameRemovePlayer).push Codec.u32 id) := by
  have hid : ECustomMetaMSG.ofCode ((Message.ofID .gameRemovePlayer).push Codec.u32 id).header.id =
      some .gameRemovePlayer := by simp
  refine .of_refers (fun c _ => c.refers_of_not ?_) fun _ a rest hpop => ?_
  · unfold Message.NamesUnits
    rw [hid]
    simp
  · rw [Message.pop_push] at hpop
    cases hpop
    exact h

end AsciiTerra
