import AsciiTerra.Combat
import AsciiTerra.Lib.Outcome

/-!
# The turn of the enemies

The part of `MakeAITurn` that computes on the game world: every living enemy equips
itself, chooses a target and spends its actions. The `while` loop takes a number of
iterations as an argument and is `deep` when they are used up; `aiTurn` runs it with
a number that suffices whenever any does.
-/

set_option autoImplicit false

namespace AsciiTerra

/-- The locals of target selection: `BestAttackCandidate`, `DistanceToTarget`,
`TargetCoords` and `IsItPlayer`. -/
structure AITarget where
  bestAttackCandidate : UInt32
  distanceToTarget : Int16
  targetCoords : CoordVec
  isItPlayer : Bool
deriving DecidableEq, Repr

namespace AITarget

def start : AITarget := ⟨invalidID, Int16.ofNat (Map.width * Map.height), CoordVec.zero, false⟩

/-- The loop body over `PlayersList`. -/
def considerPlayer (enemy : Enemy) (t : AITarget) (player : Player) : AITarget :=
  let distance := (player.coords - enemy.coords).lenght
  if distance < t.distanceToTarget then ⟨player.id, distance, player.coords, true⟩ else t

/-- The loop body over `EnemyList`, with `OtherEnemyID`. -/
def considerEnemy (enemy : Enemy) (t : AITarget) (other : Enemy × Nat) : AITarget :=
  if enemy.faction ≠ other.1.faction then
    let distance := (other.1.coords - enemy.coords).lenght
    if distance < t.distanceToTarget then
      ⟨UInt32.ofNat other.2, distance, other.1.coords, false⟩
    else t
  else t

end AITarget

/-- The target that `MakeAITurn` chooses for an enemy. -/
def chooseTarget (w : GameWorld) (enemy : Enemy) : AITarget :=
  let t := (w.playersList.entries.map (·.2)).foldl (AITarget.considerPlayer enemy) AITarget.start
  if !t.isItPlayer || t.distanceToTarget > 5 then
    w.enemyList.zipIdx.foldl (AITarget.considerEnemy enemy) t
  else t

/-- Equip any weapon of the inventory when empty handed. -/
def reequip (enemy : Enemy) : Except Fault Enemy :=
  let swordID := enemy.inventory.findItem .sword
  let bowID := enemy.inventory.findItem .bow
  let arrowID := enemy.inventory.findItem .arrow
  let weapon :=
    if swordID ≠ invalidID then swordID
    else if bowID ≠ invalidID then (if arrowID ≠ invalidID then bowID else invalidID)
    else invalidID
  if enemy.equipedItemID = invalidID then .ok { enemy with equipedItemID := weapon }
  else
    match enemy.inventory.storage[enemy.equipedItemID.toNat]? with
    | none => .error .assertion
    | some slot => .ok (if slot.empty then { enemy with equipedItemID := weapon } else enemy)

/-- What the `while (LeftedAction != 0)` loop reads and writes. -/
structure AILoop where
  world : GameWorld
  targetCoords : CoordVec
  leftedAction : UInt32
  enemyActions : List EnemyAction

/-- `EnemyAction` with `ActionInfo[1]` and `ActionInfo[2]` set. -/
def enemyAction (type : EEnemyActionType) (enemyID : UInt32) (x y : Int16) : EnemyAction :=
  ⟨type.code, enemyID, #v[0, x, y, 0]⟩

/-- `ActionInfo` with a direction set. -/
def moveInfo (x y : Int16) : Vector Int16 4 := #v[0, x, y, 0]

/-- `1 * displacement > 0 ? 1 : -1`. -/
def stepTowards (displacement : Int) : Int16 := if displacement > 0 then 1 else -1

/-- What the loop body does: an action, or none in the branch for the z component. The
coordinates the target is aimed at move with a step, by a scalar subtraction. -/
def decideAction (activeEnemyID : UInt32) (targetCoords coords : CoordVec) :
    Option (EnemyAction × CoordVec) :=
  let distanceToTarget := (targetCoords - coords).lenght
  let xDisplacement := targetCoords.x.toInt - coords.x.toInt
  let yDisplacement := targetCoords.y.toInt - coords.y.toInt
  if distanceToTarget > 1 then
    if xDisplacement ≠ 0 then
      let s := stepTowards xDisplacement
      some (enemyAction .enemyMove activeEnemyID s 0, targetCoords.scalarSubtract s)
    else if yDisplacement ≠ 0 then
      let s := stepTowards yDisplacement
      some (enemyAction .enemyMove activeEnemyID 0 s, targetCoords.scalarSubtract s)
    else none
  else
    some (enemyAction .enemyBaseAttack activeEnemyID (Int16.ofInt xDisplacement)
      (Int16.ofInt yDisplacement), targetCoords)

/-- One iteration for the enemy at index `i`, once it has a target. Without an action the
next iteration starts from the same state. -/
def aiIteration (i : Nat) (activeEnemyID : UInt32) (st : AILoop) : Except Fault AILoop :=
  match st.world.enemyList[i]? with
  | none => .error .badIndex
  | some enemy =>
    match decideAction activeEnemyID st.targetCoords enemy.coords with
    | none => .ok st
    | some (action, targetCoords) => do
      let world ← st.world.makeEnemyAction i action
      .ok ⟨world, targetCoords, st.leftedAction - 1, st.enemyActions ++ [action]⟩

/-- The `while` loop. Its `break` without a target is in `enemyTurn`. -/
def aiWhile (i : Nat) (activeEnemyID : UInt32) : Nat → AILoop → Outcome Fault AILoop
  | 0, _ => .deep
  | n + 1, st =>
    if st.leftedAction = 0 then .ok st
    else do
      let st ← Outcome.ofExcept (aiIteration i activeEnemyID st)
      aiWhile i activeEnemyID n st

/-- What the loop over `EnemyList` reads and writes. -/
structure AITurn where
  world : GameWorld
  activeEnemyID : UInt32
  enemyListDirt : Bool
  enemyActions : List EnemyAction

/-- The body of the loop over `EnemyList`, for the enemy at index `i`. -/
def enemyTurn (iterations : Nat) (st : AITurn) (i : Nat) : Outcome Fault AITurn :=
  match st.world.enemyList[i]? with
  | none => .fault .badIndex
  | some enemy =>
    -- `continue` comes before `ActiveEnemyID++`
    if enemy.hp = 0 then .ok { st with enemyListDirt := true }
    else do
      let enemy ← Outcome.ofExcept (reequip enemy)
      let world := st.world.modifyEnemy i fun _ => enemy
      let target := chooseTarget world enemy
      if target.bestAttackCandidate = invalidID then
        .ok { st with world := world, activeEnemyID := st.activeEnemyID + 1 }
      else do
        let loop ← aiWhile i st.activeEnemyID iterations
          ⟨world, target.targetCoords, enemy.maxActions, st.enemyActions⟩
        .ok ⟨loop.world, st.activeEnemyID + 1, st.enemyListDirt, loop.enemyActions⟩

/-- The start of `MakeAITurn`. -/
def AITurn.start (w : GameWorld) : AITurn := ⟨w, 0, false, []⟩

/-- The first `n` enemies of the list have taken their turn. -/
def enemyTurns (iterations : Nat) (w : GameWorld) (n : Nat) : Outcome Fault AITurn :=
  (List.range n).foldlM (enemyTurn iterations) (AITurn.start w)

/-- The loop of `MakeAITurn` over `EnemyList`. -/
def enemiesAct (iterations : Nat) (w : GameWorld) : Outcome Fault AITurn :=
  enemyTurns iterations w w.enemyList.length

/-- More iterations than any enemy has actions. -/
def aiIterations (w : GameWorld) : Nat :=
  (w.enemyList.map fun e => e.maxActions.toNat).foldr max 0 + 1

/-- The loop of `MakeAITurn`, `deep` when a `while` loop never ends. -/
def aiTurn (w : GameWorld) : Outcome Fault AITurn := enemiesAct (aiIterations w) w

/-- The removal of dead enemies at the end of `MakeAITurn`. -/
def removeDeadEnemies (enemyListDirt : Bool) (w : GameWorld) : GameWorld :=
  if enemyListDirt then { w with enemyList := w.enemyList.filter fun e => e.hp > 0 } else w

end AsciiTerra
