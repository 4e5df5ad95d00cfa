import AsciiTerra.AITurn
import AsciiTerra.Lib.FirstLeast

/-!
# The target an enemy chooses

The two search loops of `MakeAITurn` keep the nearest unit seen so far, the first of several
at the same distance, dead ones included. They look at the enemies of other factions only when
no player is within distance 5.
-/

set_option autoImplicit false

namespace AsciiTerra

/-- A unit that the search loops look at, an enemy with its index. -/
inductive Candidate
  | player (p : Player)
  | enemy (e : Enemy) (i : Nat)
deriving DecidableEq

namespace Candidate

def coords : Candidate → CoordVec
  | player p => p.coords
  | enemy e _ => e.coords

def hp : Candidate → Int32
  | player p => p.hp
  | enemy e _ => e.hp

def Living (c : Candidate) : Prop := 0 < c.hp

/-- `Distance` of a candidate to the enemy whose turn it is. -/
def distance (enemy : Enemy) (c : Candidate) : Int16 := (c.coords - enemy.coords).lenght

/-- What the loops store about a candidate. -/
def target (enemy : Enemy) : Candidate → AITarget
  | player p => ⟨p.id, (p.coords - enemy.coords).lenght, p.coords, true⟩
  | .enemy e i => ⟨UInt32.ofNat i, (e.coords - enemy.coords).lenght, e.coords, false⟩

/-- The locals of the loops when this candidate is the best so far. -/
def targetOf (enemy : Enemy) : Option Candidate → AITarget
  | none => AITarget.start
  | some c => c.target enemy

def rank (enemy : Enemy) (c : Candidate) : Int := (c.distance enemy).toInt

end Candidate

namespace GameWorld

def playerCandidates (w : GameWorld) : List Candidate :=
  w.playersList.entries.map fun e => .player e.2

/-- The enemies of other factions with their indices, in the order of the search. -/
def foeCandidates (w : GameWorld) (enemy : Enemy) : List Candidate :=
  (w.enemyList.zipIdx.filter fun o => enemy.faction ≠ o.1.faction).map fun o => .enemy o.1 o.2

/-- The units the search looks at: with a player within distance 5, dead or not, only players. -/
def considered (w : GameWorld) (enemy : Enemy) : List Candidate :=
  if w.playerCandidates.any fun c => c.rank enemy ≤ 5 then w.playerCandidates
  else w.playerCandidates ++ w.foeCandidates enemy

end GameWorld

namespace AITarget
variable {enemy : Enemy}

theorem distance_start (c : CoordVec) : (c - enemy.coords).lenght < start.distanceToTarget := by
  have hle := CoordVec.lenght_le (c - enemy.coords)
  apply Int16.lt_iff_toInt_lt.mpr
  have hstart : start.distanceToTarget.toInt = 1600 := by decide
  omega

theorem considerPlayer_targetOf (o : Option Candidate) (p : Player) :
    considerPlayer enemy (Candidate.targetOf enemy o) p = Candidate.targetOf enemy
      (List.argAux (fun b c => Candidate.rank enemy b < Candidate.rank enemy c) o (.player p)) := by
  unfold considerPlayer
  cases o with
  | none => exact if_pos (distance_start p.coords)
  | some c =>
    simp only [List.argAux, Candidate.rank, ← Int16.lt_iff_toInt_lt]
    have hdistance : (Candidate.targetOf enemy (some c)).distanceToTarget = c.distance enemy := by
      cases c <;> rfl
    rw [hdistance]
    exact (apply_ite (Candidate.targetOf enemy)
      ((Candidate.player p).distance enemy < c.distance enemy) (some (.player p)) (some c)).symm

theorem considerEnemy_targetOf (o : Option Candidate) (other : Enemy × Nat)
    (hother : enemy.faction ≠ other.1.faction) :
    considerEnemy enemy (Candidate.targetOf enemy o) other = Candidate.targetOf enemy
      (List.argAux (fun b c => Candidate.rank enemy b < Candidate.rank enemy c) o
        (.enemy other.1 other.2)) := by
  unfold considerEnemy
  rw [if_pos hother]
  cases o with
  | none => exact if_pos (distance_start other.1.coords)
  | some c =>
    simp only [List.argAux, Candidate.rank, ← Int16.lt_iff_toInt_lt]
    have hdistance : (Candidate.targetOf enemy (some c)).distanceToTarget = c.distance enemy := by
      cases c <;> rfl
    rw [hdistance]
    exact (apply_ite (Candidate.targetOf enemy)
      ((Candidate.enemy other.1 other.2).distance enemy < c.distance enemy)
      (some (.enemy other.1 other.2)) (some c)).symm

theorem foldl_considerPlayer (enemy : Enemy) (ps : List Player) (o : Option Candidate) :
    ps.foldl (considerPlayer enemy) (Candidate.targetOf enemy o) = Candidate.targetOf enemy
      ((ps.map Candidate.player).foldl
        (List.argAux fun b c => Candidate.rank enemy b < Candidate.rank enemy c) o) := by
  induction ps generalizing o with
  | nil => rfl
  | cons p ps ih => rw [List.foldl_cons, considerPlayer_targetOf, ih, List.map_cons, List.foldl_cons]

theorem foldl_considerEnemy (enemy : Enemy) (es : List (Enemy × Nat)) (o : Option Candidate) :
    es.foldl (considerEnemy enemy) (Candidate.targetOf enemy o) = Candidate.targetOf enemy
      (((es.filter fun o => enemy.faction ≠ o.1.faction).map fun o => .enemy o.1 o.2).foldl
        (List.argAux fun b c => Candidate.rank enemy b < Candidate.rank enemy c) o) := by
  induction es generalizing o with
  | nil => rfl
  | cons other es ih =>
    by_cases hother : enemy.faction ≠ other.1.faction
    · rw [List.foldl_cons, considerEnemy_targetOf o other hother, ih,
        List.filter_cons_of_pos (by simpa using hother), List.map_cons, List.foldl_cons]
    · rw [List.filter_cons_of_neg (by simpa using hother), List.foldl_cons, ← ih]
      congr 1
      exact if_neg hother

end AITarget

theorem chooseTarget_eq (w : GameWorld) (enemy : Enemy) : chooseTarget w enemy =
    Candidate.targetOf enemy ((w.considered enemy).argmin (Candidate.rank enemy)) := by
  have hplayers : (w.playersList.entries.map (·.2)).foldl (AITarget.considerPlayer enemy)
      AITarget.start =
        Candidate.targetOf enemy (w.playerCandidates.argmin (Candidate.rank enemy)) := by
    have hfold := AITarget.foldl_considerPlayer enemy (w.playersList.entries.map (·.2)) none
    rw [List.map_map] at hfold
    exact hfold
  have hswitch : (!(Candidate.targetOf enemy
      (w.playerCandidates.argmin (Candidate.rank enemy))).isItPlayer ||
        (Candidate.targetOf enemy
          (w.playerCandidates.argmin (Candidate.rank enemy))).distanceToTarget > 5) =
      !(w.playerCandidates.any fun c => c.rank enemy ≤ 5) := by
    cases hm : w.playerCandidates.argmin (Candidate.rank enemy) with
    | none =>
      rw [List.argmin_eq_none.mp hm]
      rfl
    | some m =>
      have hmem := List.argmin_mem hm
      obtain ⟨e, -, rfl⟩ := List.mem_map.mp hmem
      have hnear : (w.playerCandidates.any fun c => c.rank enemy ≤ 5) = true ↔
          Candidate.rank enemy (.player e.2) ≤ 5 := by
        rw [List.any_eq_true]
        constructor
        · rintro ⟨c, hc, hle⟩
          exact (List.le_of_mem_argmin hc hm).trans (by simpa using hle)
        · exact fun hle => ⟨_, hmem, by simpa using hle⟩
      have hfar : (e.2.coords - enemy.coords).lenght > 5 ↔
          ¬ Candidate.rank enemy (.player e.2) ≤ 5 := by
        rw [gt_iff_lt, Int16.lt_iff_toInt_lt, not_le]
        rfl
      rw [Bool.eq_iff_iff, Bool.not_eq_true', ← Bool.not_eq_true, hnear, ← hfar]
      simp [Candidate.targetOf, Candidate.target]
  unfold chooseTarget
  simp only [hplayers]
  rw [hswitch]
  unfold GameWorld.considered
  cases hany : w.playerCandidates.any fun c => c.rank enemy ≤ 5 with
  | true => rfl
  | false =>
    have hfold := AITarget.foldl_considerEnemy enemy w.enemyList.zipIdx
      (w.playerCandidates.argmin (Candidate.rank enemy))
    rw [Bool.not_false, if_pos rfl, if_neg Bool.false_ne_true, hfold]
    unfold List.argmin
    rw [List.foldl_append]
    rfl

namespace GameWorld
variable {w : GameWorld} {enemy : Enemy}

/-- The living units from which the target should come: the players, and unless one of them is
within distance 5 the enemies of other factions too. -/
def Eligible (w : GameWorld) (enemy : Enemy) (c : Candidate) : Prop :=
  c.Living ∧ (c ∈ w.playerCandidates ∨ c ∈ w.foeCandidates enemy ∧
    ¬ ∃ p ∈ w.playerCandidates, p.Living ∧ p.rank enemy ≤ 5)

/-- The target is a nearest one of these units, and there is none only if there are no such units. -/
structure ChoosesNearest (w : GameWorld) (enemy : Enemy) (t : AITarget) : Prop where
  invalid : t.bestAttackCandidate = invalidID ↔ ∀ c, ¬ w.Eligible enemy c
  nearest : t.bestAttackCandidate ≠ invalidID → ∃ c, w.Eligible enemy c ∧ t = c.target enemy ∧
    ∀ c', w.Eligible enemy c' → c.rank enemy ≤ c'.rank enemy

/-- Every dead unit that is looked at is outdone by a living one: a nearer one, or one before it
at the same distance. -/
def DeadOutdone (w : GameWorld) (enemy : Enemy) : Prop :=
  ∀ (i : Nat) c, (w.considered enemy)[i]? = some c → ¬ c.Living →
    ∃ (j : Nat) (c' : Candidate), (w.considered enemy)[j]? = some c' ∧ c'.Living ∧
      (c'.rank enemy < c.rank enemy ∨ c'.rank enemy = c.rank enemy ∧ j < i)

/-- The numbers of units are different, and none is `InvalidID`. -/
structure Numbered (w : GameWorld) : Prop where
  keysAreIDs : KeysAreIDs w.playersList
  players : ∀ e ∈ w.playersList.entries, e.2.id ≠ invalidID
  enemies : w.enemyList.length < 2 ^ 32

theorem mem_considered {c : Candidate} (h : c ∈ w.considered enemy) :
    c ∈ w.playerCandidates ∨ c ∈ w.foeCandidates enemy := by
  unfold considered at h
  split at h
  · exact .inl h
  · exact List.mem_append.mp h

theorem mem_foeCandidates {c : Candidate} (h : c ∈ w.foeCandidates enemy) :
    ∃ (i : Nat) (e : Enemy), c = .enemy e i ∧ w.enemyList[i]? = some e ∧
      enemy.faction ≠ e.faction := by
  obtain ⟨⟨e, i⟩, ho, rfl⟩ := List.mem_map.mp h
  obtain ⟨hmem, hfaction⟩ := List.mem_filter.mp ho
  exact ⟨i, e, rfl, List.mem_zipIdx_iff_getElem?.mp hmem, by simpa using hfaction⟩

theorem Numbered.enemyID_toNat (h : w.Numbered) {i : Nat} {e : Enemy}
    (he : w.enemyList[i]? = some e) : (UInt32.ofNat i).toNat = i := by
  have hlt := (List.getElem?_eq_some_iff.mp he).1
  exact UInt32.toNat_ofNat_of_lt' (by have := h.enemies; simp only [UInt32.size]; omega)

theorem Numbered.target_ne_invalidID (h : w.Numbered) {c : Candidate}
    (hc : c ∈ w.playerCandidates ∨ c ∈ w.foeCandidates enemy) :
    (c.target enemy).bestAttackCandidate ≠ invalidID := by
  rcases hc with hc | hc
  · obtain ⟨e, he, rfl⟩ := List.mem_map.mp hc
    exact h.players e he
  · obtain ⟨i, e, rfl, he, -⟩ := mem_foeCandidates hc
    intro heq
    have hlt := (List.getElem?_eq_some_iff.mp he).1
    have hnat := h.enemyID_toNat he
    have henemies := h.enemies
    have hinvalid : (UInt32.ofNat i).toNat = invalidID.toNat := congrArg UInt32.toNat heq
    have hmax : invalidID.toNat = 2 ^ 32 - 1 := rfl
    omega

theorem Numbered.target_injective (h : w.Numbered) {c c' : Candidate}
    (hc : c ∈ w.playerCandidates ∨ c ∈ w.foeCandidates enemy)
    (hc' : c' ∈ w.playerCandidates ∨ c' ∈ w.foeCandidates enemy)
    (heq : c.target enemy = c'.target enemy) : c = c' := by
  have hbest := congrArg AITarget.bestAttackCandidate heq
  have hkind := congrArg AITarget.isItPlayer heq
  rcases hc with hc | hc <;> rcases hc' with hc' | hc'
  · obtain ⟨e, he, rfl⟩ := List.mem_map.mp hc
    obtain ⟨e', he', rfl⟩ := List.mem_map.mp hc'
    have hid : e.2.id = e'.2.id := hbest
    have hlookup := OrderedMap.lookup_of_mem_entries he
    have hlookup' := OrderedMap.lookup_of_mem_entries he'
    rw [← h.keysAreIDs e he, hid, h.keysAreIDs e' he', hlookup', Option.some.injEq] at hlookup
    rw [hlookup]
  · obtain ⟨e, -, rfl⟩ := List.mem_map.mp hc
    obtain ⟨i, e', rfl, -, -⟩ := mem_foeCandidates hc'
    exact nomatch hkind
  · obtain ⟨i, e', rfl, -, -⟩ := mem_foeCandidates hc
    obtain ⟨e, -, rfl⟩ := List.mem_map.mp hc'
    exact nomatch hkind
  · obtain ⟨i, e, rfl, he, -⟩ := mem_foeCandidates hc
    obtain ⟨i', e', rfl, he', -⟩ := mem_foeCandidates hc'
    have hindex : UInt32.ofNat i = UInt32.ofNat i' := hbest
    have hnat := congrArg UInt32.toNat hindex
    rw [h.enemyID_toNat he, h.enemyID_toNat he'] at hnat
    subst hnat
    cases he.symm.trans he'
    rfl

theorem Eligible.mem {c : Candidate} (h : w.Eligible enemy c) :
    c ∈ w.playerCandidates ∨ c ∈ w.foeCandidates enemy :=
  h.2.imp_right And.left

/-- A living unit that is found is eligible, and so is no other that the loops have not seen. -/
theorem eligible_of_argmin {m : Candidate}
    (hm : m ∈ (w.considered enemy).argmin (Candidate.rank enemy)) (hliving : m.Living) :
    w.Eligible enemy m ∧ ∀ c, w.Eligible enemy c → c ∈ w.considered enemy := by
  have hmem := List.argmin_mem hm
  have hleast : ∀ c ∈ w.considered enemy, m.rank enemy ≤ c.rank enemy :=
    fun c hc => List.le_of_mem_argmin hc hm
  unfold considered at hmem hleast ⊢
  split at hmem
  · rename_i hany
    rw [if_pos hany] at hleast ⊢
    obtain ⟨p, hp, hle⟩ := List.any_eq_true.mp hany
    have hnear : m.rank enemy ≤ 5 := (hleast p hp).trans (by simpa using hle)
    refine ⟨⟨hliving, .inl hmem⟩, fun c hc => ?_⟩
    rcases hc.2 with hplayer | ⟨-, hnone⟩
    · exact hplayer
    · exact absurd ⟨m, hmem, hliving, hnear⟩ hnone
  · rename_i hany
    rw [if_neg hany]
    refine ⟨⟨hliving, ?_⟩, fun c hc => List.mem_append.mpr hc.mem⟩
    rcases List.mem_append.mp hmem with hplayer | hfoe
    · exact .inl hplayer
    · refine .inr ⟨hfoe, ?_⟩
      rintro ⟨p, hp, -, hle⟩
      exact hany (List.any_eq_true.mpr ⟨p, hp, by simpa using hle⟩)

theorem considered_eq_nil (h : w.considered enemy = []) (c : Candidate) :
    ¬ w.Eligible enemy c := by
  unfold considered at h
  split at h
  · rename_i hany
    rw [h] at hany
    exact nomatch hany
  · intro hc
    have hmem := List.mem_append.mpr hc.mem
    rw [h] at hmem
    exact List.not_mem_nil hmem

/-- `MakeAITurn` chooses a nearest living unit if and only if no dead one is in its way. -/
theorem choosesNearest_iff (h : w.Numbered) (enemy : Enemy) :
    ChoosesNearest w enemy (chooseTarget w enemy) ↔ w.DeadOutdone enemy := by
  unfold DeadOutdone
  rw [chooseTarget_eq, ← List.forall_mem_argmin_iff]
  cases hm : (w.considered enemy).argmin (Candidate.rank enemy) with
  | none =>
    have hnone := considered_eq_nil (List.argmin_eq_none.mp hm)
    exact iff_of_true ⟨iff_of_true rfl hnone, fun hne => absurd rfl hne⟩ (fun m hm => nomatch hm)
  | some m =>
    have hseen := mem_considered (List.argmin_mem hm)
    have hvalid : (m.target enemy).bestAttackCandidate ≠ invalidID := h.target_ne_invalidID hseen
    constructor
    · intro hchoice m' hm'
      cases hm'
      obtain ⟨c, hc, htarget, -⟩ := hchoice.nearest hvalid
      rw [h.target_injective hseen hc.mem htarget]
      exact hc.1
    · intro hliving
      obtain ⟨heligible, hall⟩ := eligible_of_argmin hm (hliving m rfl)
      refine ⟨iff_of_false hvalid fun hnone => hnone m heligible, fun _ => ?_⟩
      exact ⟨m, heligible, rfl, fun c hc => List.le_of_mem_argmin (hall c hc) hm⟩

/-- Two bandits, the farther one dead, and beyond them two players, of whom the second is dead. -/
def crowd : GameWorld × Enemy :=
  let bandit := enemiesTable.getD 1 (enemiesTable.head (by decide))
  let dead := AList.singleton 10001
    { Player.default with id := 10001, hp := 0, coords := ⟨0, 7, 0⟩ }
  (⟨OrderedMap.insertOrAssign (.same _) 10000
      { Player.default with id := 10000, hp := 45, coords := ⟨6, 0, 0⟩ } dead,
    enemiesTable.take 1 ++ [{ bandit with coords := ⟨3, 0, 0⟩ },
      { bandit with hp := 0, coords := ⟨0, 4, 0⟩ }], ⟨Vector.replicate _ 0⟩⟩,
    enemiesTable.head (by decide))

theorem numbered_crowd : crowd.1.Numbered :=
  ⟨show ∀ e ∈ crowd.1.playersList.entries, e.2.id = e.1 by decide +kernel, by decide +kernel,
    show (3 : Nat) < 2 ^ 32 by decide⟩

/-- The zombie chooses the living bandit. -/
theorem choosesNearest_crowd :
    (crowd.1.considered crowd.2).map Candidate.hp = [45, 0, 23, 0] ∧
    chooseTarget crowd.1 crowd.2 = ⟨1, 3, ⟨3, 0, 0⟩, false⟩ ∧
    ChoosesNearest crowd.1 crowd.2 (chooseTarget crowd.1 crowd.2) := by
  have hbandit : ((crowd.1.considered crowd.2)[2]?).any (fun c =>
      (0 : Int32) < c.hp ∧ c.rank crowd.2 = 3) = true := by decide +kernel
  obtain ⟨bandit, hfound, hbandit⟩ := (Option.any_eq_true _ _).mp hbandit
  obtain ⟨hliving, hrank⟩ := of_decide_eq_true hbandit
  have houtdone : ∀ c ∈ crowd.1.considered crowd.2, ¬ (0 : Int32) < c.hp → 3 < c.rank crowd.2 := by
    decide +kernel
  refine ⟨by decide +kernel, by decide +kernel, (choosesNearest_iff numbered_crowd _).mpr ?_⟩
  intro i c hc hdead
  refine ⟨2, bandit, hfound, hliving, .inl ?_⟩
  rw [hrank]
  exact houtdone c (List.mem_of_getElem? hc) hdead

/-- A player, six tiles from the zombie at the origin, and no other unit. -/
def playerAndZombie (hp : Int32) : GameWorld × Enemy :=
  (⟨AList.singleton 10000 { Player.default with id := 10000, hp := hp, coords := ⟨6, 0, 0⟩ },
    enemiesTable.take 1, ⟨Vector.replicate _ 0⟩⟩, enemiesTable.head (by decide))

theorem numbered_playerAndZombie (hp : Int32) : (playerAndZombie hp).1.Numbered := by
  refine ⟨fun e he => ?_, fun e he => ?_, show (1 : Nat) < 2 ^ 32 by decide⟩
  · cases List.mem_singleton.mp he
    rfl
  · cases List.mem_singleton.mp he
    exact show (10000 : UInt32) ≠ invalidID by decide

theorem mem_playerAndZombie {hp : Int32} {c : Candidate}
    (h : c ∈ (playerAndZombie hp).1.playerCandidates ∨
      c ∈ (playerAndZombie hp).1.foeCandidates (playerAndZombie hp).2) : c.hp = hp := by
  rcases h with hplayer | hfoe
  · cases List.mem_singleton.mp hplayer
    rfl
  · obtain ⟨i, e, rfl, he, hfaction⟩ := mem_foeCandidates hfoe
    cases List.mem_singleton.mp (List.mem_of_getElem? he)
    exact absurd rfl hfaction

/-- The zombie chooses a dead player, although it has nothing left to attack. -/
theorem choosesDead : (playerAndZombie 0).1.Numbered ∧
    ¬ ChoosesNearest (playerAndZombie 0).1 (playerAndZombie 0).2
      (chooseTarget (playerAndZombie 0).1 (playerAndZombie 0).2) := by
  refine ⟨numbered_playerAndZombie 0, fun h => ?_⟩
  refine absurd (h.invalid.mpr fun c hc => ?_) (by decide)
  have hliving : 0 < c.hp := hc.1
  rw [mem_playerAndZombie hc.mem] at hliving
  exact absurd hliving (by decide)

end GameWorld

end AsciiTerra
