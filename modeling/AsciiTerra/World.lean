import AsciiTerra.Coords
import AsciiTerra.Lib.OrderedMap

/-!
# Items, units and the game world

The records of `spNetMETA.h`. Fields that travel over the network keep the raw code
of their enumeration, since a peer may send any code; `code` and `ofCode` relate it
to the enumerators. `PlayersList` is an `OrderedMap` because the program iterates it.
-/

set_option autoImplicit false

namespace AsciiTerra

/-- Ways in which the program leaves the behaviour the source defines. -/
inductive Fault
  /-- a failed `assert` -/
  | assertion
  /-- `std::out_of_range` thrown by `at` -/
  | outOfRange
  /-- `operator[]` of a vector past its end -/
  | badIndex
  /-- dereference of a null `std::shared_ptr` -/
  | nullConnection
  /-- dereference or increment of `end()` -/
  | endIterator
  /-- a range-for over a deque that was erased from meanwhile -/
  | invalidIterator
  /-- a range-for over a vector that has grown meanwhile -/
  | grownVector
  /-- use of an iterator whose map entry was erased -/
  | erasedEntry
  /-- `operator>>` on a body shorter than the record -/
  | shortBody
deriving DecidableEq, Repr

@[simp] theorem except_ok_bind {ε α β : Type} (a : α) (f : α → Except ε β) :
    (Except.ok a >>= f) = f a := rfl

@[simp] theorem except_error_bind {ε α β : Type} (e : ε) (f : α → Except ε β) :
    (Except.error e >>= f) = .error e := rfl

theorem except_bind_eq_ok {ε α β : Type} {x : Except ε α} {f : α → Except ε β} {b : β} :
    (x >>= f) = .ok b ↔ ∃ a, x = .ok a ∧ f a = .ok b := by
  cases x <;> simp

theorem except_toOption_eq_some {ε α : Type} {x : Except ε α} {a : α} :
    x.toOption = some a ↔ x = .ok a := by
  cases x <;> simp [Except.toOption]

def invalidID : UInt32 := 0xFFFFFFFF

/-- `ItemType`; `none` is the enumerator `None`. -/
inductive ItemType
  | none
  | arrow
  | bow
  | sword
  | apple
deriving DecidableEq, Repr

def ItemType.code : ItemType → UInt32
  | .none => 0
  | .arrow => 1
  | .bow => 2
  | .sword => 3
  | .apple => 4

structure Item where
  itemName : Vector UInt8 75
  type : UInt32
  usage : UInt8
  power : UInt8
deriving DecidableEq, Repr

/-- `FixedString<75>` in static storage: the characters, then zeros. -/
def fixedString (cStr : List UInt8) : Vector UInt8 75 :=
  Vector.ofFn fun i => cStr.getD i 0

def Item.default : Item := ⟨fixedString [], ItemType.none.code, 0, 0⟩

structure ItemSlot where
  empty : Bool
  item : Item
  mods : UInt8
  quantity : UInt32
deriving DecidableEq, Repr

def ItemSlot.default : ItemSlot := ⟨true, Item.default, 0, 0⟩

def maxInventorySize : Nat := 20

structure Inventory where
  storage : Vector ItemSlot maxInventorySize
deriving DecidableEq, Repr

namespace Inventory

def empty : Inventory := ⟨Vector.replicate maxInventorySize ItemSlot.default⟩

/-- `Inventory(std::initializer_list<ItemSlot>)`. -/
def ofSlots (initList : List ItemSlot) : Inventory :=
  ⟨Vector.ofFn fun i => initList.getD i ItemSlot.default⟩

/-- The slot `AddItem` stores. -/
def slotOf (item : Item) : ItemSlot :=
  let worn := item.type = ItemType.sword.code ∨ item.type = ItemType.bow.code
  { empty := false
    item := item
    mods := if worn then item.usage else 0
    quantity := if worn then 1 else item.usage.toUInt32 }

/-- `AddItem`: the first empty slot takes the item; a full inventory stays as it is. -/
def addItem (item : Item) (inv : Inventory) : Inventory :=
  match inv.storage.toList.findIdx? ItemSlot.empty with
  | some i => ⟨inv.storage.setIfInBounds i (slotOf item)⟩
  | none => inv

def findIndex (itemType : ItemType) (inv : Inventory) : Option Nat :=
  inv.storage.toList.findIdx? fun slot => !slot.empty && slot.item.type == itemType.code

def findItem (itemType : ItemType) (inv : Inventory) : UInt32 :=
  match inv.findIndex itemType with
  | some i => UInt32.ofNat i
  | none => invalidID

/-- One unit less of the arrows in a slot, which becomes empty with the last one. -/
def useArrow (slot : ItemSlot) : ItemSlot :=
  { slot with
    quantity := slot.quantity - 1
    empty := if slot.quantity - 1 = 0 then true else slot.empty }

end Inventory

/-- `"..."` as a C string. -/
def cString (s : String) : List UInt8 := s.toList.map fun c => UInt8.ofNat c.toNat

def itemTable : List Item :=
  [ ⟨fixedString (cString "Master Keiju Sword"), ItemType.sword.code, 100, 5⟩,
    ⟨fixedString (cString "Villager Bow"), ItemType.bow.code, 27, 1⟩,
    ⟨fixedString (cString "Apple"), ItemType.apple.code, 3, 1⟩,
    ⟨fixedString (cString "Just Arrow"), ItemType.arrow.code, 1, 1⟩,
    ⟨fixedString (cString "Poisoned Arrow"), ItemType.arrow.code, 7, 3⟩,
    ⟨fixedString (cString "Iron Sword"), ItemType.sword.code, 27, 3⟩ ]

/-- The counters have four bits. The instance has a name so that the literals of the counters are
the same term wherever they are written. -/
instance neZeroSixteen : NeZero 16 := inferInstance

/-- `Player`. The turn counters are four-bit fields. -/
structure Player where
  name : Vector UInt8 75
  id : UInt32
  hp : Int32
  equipedItemID : UInt32
  inventory : Inventory
  coords : CoordVec
  maxTurns : Fin 16
  currentTurns : Fin 16
deriving DecidableEq, Repr

theorem uint32_toNat_sub_one {n : UInt32} (h : n ≠ 0) : (n - 1).toNat = n.toNat - 1 := by
  have hpos : 0 < n.toNat := by
    apply Nat.pos_of_ne_zero
    exact fun h0 => h (UInt32.toNat_inj.mp h0)
  exact UInt32.toNat_sub_of_le _ _ (UInt32.le_iff_toNat_le.mpr hpos)

namespace Player

/-- `Player{}`. -/
def default : Player where
  name := Vector.replicate 75 0
  id := 0
  hp := 0
  equipedItemID := 0
  inventory := Inventory.empty
  coords := CoordVec.zero
  maxTurns := 0
  currentTurns := 0

def getMaxTurnActions (p : Player) : UInt32 := UInt32.ofNat p.maxTurns
def getCurrentTurnActions (p : Player) : UInt32 := UInt32.ofNat p.currentTurns

theorem getMaxTurnActions_toNat (p : Player) : p.getMaxTurnActions.toNat = p.maxTurns.val := by
  have hlt := p.maxTurns.isLt
  apply UInt32.toNat_ofNat_of_lt'
  simp only [UInt32.size]
  omega

theorem getCurrentTurnActions_toNat (p : Player) :
    p.getCurrentTurnActions.toNat = p.currentTurns.val := by
  have hlt := p.currentTurns.isLt
  apply UInt32.toNat_ofNat_of_lt'
  simp only [UInt32.size]
  omega

/-- `SetCurrentTurnActions`: asserts the bound, then stores four bits. -/
def setCurrentTurnActions (turnActions : UInt32) (p : Player) : Except Fault Player :=
  if turnActions ≤ 16 then .ok { p with currentTurns := Fin.ofNat 16 turnActions.toNat }
  else .error .assertion

def setMaxTurnActions (turnActions : UInt32) (p : Player) : Except Fault Player :=
  if turnActions ≤ 16 then .ok { p with maxTurns := Fin.ofNat 16 turnActions.toNat }
  else .error .assertion

end Player

/-- The common body of `Player::TakeDamage` and `Enemy::TakeDamage`. The damage is
unsigned, so the comparison reads the hit points as unsigned too. -/
def damagedHP (damage : UInt32) (hp : Int32) : Int32 :=
  if damage ≥ hp.toUInt32 then 0 else (hp.toUInt32 - damage).toInt32

theorem damagedHP_of_eq_zero (damage : UInt32) {hp : Int32} (h : hp = 0) :
    damagedHP damage hp = 0 := by
  subst h
  exact if_pos (UInt32.le_iff_toNat_le.mpr (Nat.zero_le _))

def Player.takeDamage (damage : UInt32) (p : Player) : Player :=
  { p with hp := damagedHP damage p.hp }

inductive EEnemyType
  | zombie
  | bandit
deriving DecidableEq, Repr

def EEnemyType.code : EEnemyType → UInt8
  | .zombie => 0
  | .bandit => 1

structure Enemy where
  type : UInt8
  faction : UInt32
  hp : Int32
  maxActions : UInt32
  equipedItemID : UInt32
  inventory : Inventory
  coords : CoordVec
deriving DecidableEq, Repr

def Enemy.takeDamage (damage : UInt32) (e : Enemy) : Enemy :=
  { e with hp := damagedHP damage e.hp }

def enemiesTable : List Enemy :=
  [ { type := EEnemyType.zombie.code, faction := 0, hp := 17, maxActions := 3
      equipedItemID := 0
      inventory := .ofSlots [⟨false, itemTable.getD 5 Item.default, 0, 1⟩]
      coords := CoordVec.zero },
    { type := EEnemyType.bandit.code, faction := 1, hp := 23, maxActions := 2
      equipedItemID := 0
      inventory := .ofSlots [⟨false, itemTable.getD 1 Item.default, 0, 1⟩,
        ⟨false, itemTable.getD 3 Item.default, 0, 50⟩]
      coords := CoordVec.zero } ]

inductive EPlayerActionType
  | move
  | attack
  | endTurn
deriving DecidableEq, Repr

def EPlayerActionType.code : EPlayerActionType → UInt8
  | .move => 0
  | .attack => 1
  | .endTurn => 2

def EPlayerActionType.ofCode (c : UInt8) : Option EPlayerActionType :=
  if c = 0 then some .move else if c = 1 then some .attack else if c = 2 then some .endTurn
  else none

structure PlayerAction where
  actionType : UInt8
  playerID : UInt32
  actionInfo : Vector Int16 4
deriving DecidableEq, Repr

inductive EEnemyActionType
  | enemyMove
  | enemyBaseAttack
deriving DecidableEq, Repr

def EEnemyActionType.code : EEnemyActionType → UInt8
  | .enemyMove => 0
  | .enemyBaseAttack => 1

def EEnemyActionType.ofCode (c : UInt8) : Option EEnemyActionType :=
  if c = 0 then some .enemyMove else if c = 1 then some .enemyBaseAttack else none

structure EnemyAction where
  actionType : UInt8
  enemyID : UInt32
  actionInfo : Vector Int16 4
deriving DecidableEq, Repr

/-- `CoordVec{ ActionInfo[1], ActionInfo[2], ActionInfo[3] }`. -/
def direction (actionInfo : Vector Int16 4) : CoordVec :=
  ⟨actionInfo[1], actionInfo[2], actionInfo[3]⟩

inductive ETileType
  | grass
  | forest
  | water
  | stone
  | hill
deriving DecidableEq, Repr

def ETileType.code : ETileType → UInt8
  | .grass => 0
  | .forest => 1
  | .water => 2
  | .stone => 3
  | .hill => 4

structure Map where
  mapTiles : Vector UInt8 (40 * 40)
deriving DecidableEq, Repr

def Map.width : Nat := 40

def Map.height : Nat := 40

/-- `PlayersList`. -/
abbrev PlayersList := OrderedMap UInt32 Player

structure GameWorld where
  playersList : PlayersList
  enemyList : List Enemy
  gameWorldMap : Map

namespace GameWorld

/-- `PlayersList.at`. -/
def playerAt (w : GameWorld) (id : UInt32) : Except Fault Player :=
  match w.playersList.lookup id with
  | some p => .ok p
  | none => .error .outOfRange

def modifyPlayer (id : UInt32) (f : Player → Player) (w : GameWorld) : GameWorld :=
  { w with playersList := OrderedMap.modify id f w.playersList }

def modifyEnemy (i : Nat) (f : Enemy → Enemy) (w : GameWorld) : GameWorld :=
  { w with enemyList := w.enemyList.modify i f }

@[simp] theorem modifyPlayer_enemyList (id : UInt32) (f : Player → Player) (w : GameWorld) :
    (w.modifyPlayer id f).enemyList = w.enemyList := rfl

@[simp] theorem modifyPlayer_playersList (id : UInt32) (f : Player → Player) (w : GameWorld) :
    (w.modifyPlayer id f).playersList = OrderedMap.modify id f w.playersList := rfl

@[simp] theorem modifyPlayer_gameWorldMap (id : UInt32) (f : Player → Player) (w : GameWorld) :
    (w.modifyPlayer id f).gameWorldMap = w.gameWorldMap := rfl

@[simp] theorem modifyEnemy_enemyList (i : Nat) (f : Enemy → Enemy) (w : GameWorld) :
    (w.modifyEnemy i f).enemyList = w.enemyList.modify i f := rfl

@[simp] theorem modifyEnemy_playersList (i : Nat) (f : Enemy → Enemy) (w : GameWorld) :
    (w.modifyEnemy i f).playersList = w.playersList := rfl

@[simp] theorem modifyEnemy_gameWorldMap (i : Nat) (f : Enemy → Enemy) (w : GameWorld) :
    (w.modifyEnemy i f).gameWorldMap = w.gameWorldMap := rfl

theorem playerAt_eq_ok {w : GameWorld} {id : UInt32} {p : Player} :
    w.playerAt id = .ok p ↔ w.playersList.lookup id = some p := by
  unfold playerAt
  cases w.playersList.lookup id <;> simp

end GameWorld

end AsciiTerra
