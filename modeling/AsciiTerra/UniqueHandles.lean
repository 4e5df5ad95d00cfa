import AsciiTerra.Lib.Machine

/-!
# Unique handles

`UniqueMemoryHandle` of `Utils/Memory.h` with all its members that change a pointer. Handles
are named by the order of their construction and objects by the order of their allocation, which
gets any address where no object lives: `Allocate` fills its block with zeros before anybody
tests it, so that a program whose `malloc` fails does not come to another state. The program may
also keep raw pointers that it has to look after itself: those of `harz_new` and of
`RetrieveResourse`. A step is only taken with handles that exist and with raw pointers that the
program keeps.
-/

set_option autoImplicit false

namespace AsciiTerra

/-- A pointer is `none` when it is null and the place of a handle is `none` after its destructor.
`deleted` lists what `harz_delete` was called on. -/
structure UniqueHandles (Address : Type) where
  objects : Address → Option Nat
  allocations : Nat
  deleted : List (Option Nat)
  handles : List (Option (Option Address))
  raw : List Address

/-- What a program can do; `i` and `j` are handles, `p` is a raw pointer. -/
inductive UniqueOperation (Address : Type)
  /-- `harz_new` by the program, with what it returns -/
  | allocate (a : Address)
  /-- `harz_delete` by the program -/
  | delete (a : Address)
  /-- `UniqueMemoryHandle()` -/
  | construct
  /-- `Create`, with what `harz_new` returns -/
  | create (a : Address)
  /-- `UniqueMemoryHandle(T*)` -/
  | ofPointer (p : Option Address)
  /-- `UniqueMemoryHandle(UniqueMemoryHandle&)` and `UniqueMemoryHandle(UniqueMemoryHandle&&)` -/
  | move (i : Nat)
  | moveAssign (i j : Nat)
  | resetNew (i : Nat) (a : Address)
  /-- `Reset(T*)`; the handle's own pointer is allowed too -/
  | resetPointer (i : Nat) (p : Option Address)
  /-- `Reset(UniqueMemoryHandle)`, its parameter made of the handle `j` -/
  | reset (i j : Nat)
  | retrieve (i : Nat)
  | release (i : Nat)
  | destroy (i : Nat)

namespace UniqueHandles
variable {Address : Type}

def empty : UniqueHandles Address := ⟨fun _ => none, 0, [], [], []⟩

/-- `Data`. -/
def data (s : UniqueHandles Address) (i : Nat) : Option Address := (s.handles[i]?.join).join

def setData (s : UniqueHandles Address) (i : Nat) (p : Option Address) : UniqueHandles Address :=
  { s with handles := s.handles.set i (some p) }

def isLive (s : UniqueHandles Address) (i : Nat) : Bool := (s.handles[i]?.join).isSome

def isValid (s : UniqueHandles Address) (i : Nat) : Bool := (s.data i).isSome

section Update
variable [DecidableEq Address]

/-- `harz_new` once it has an address. -/
def harzNew (s : UniqueHandles Address) (a : Address) : UniqueHandles Address :=
  { s with
    objects := Function.update s.objects a (some s.allocations)
    allocations := s.allocations + 1 }

def harzDelete (s : UniqueHandles Address) (a : Address) : UniqueHandles Address :=
  { s with objects := Function.update s.objects a none, deleted := s.deleted ++ [s.objects a] }

def releaseResourseChecked (s : UniqueHandles Address) (i : Nat) : UniqueHandles Address :=
  (s.data i).elim s fun a => (s.harzDelete a).setData i none

def retrieveResourse (s : UniqueHandles Address) (i : Nat) : Option Address × UniqueHandles Address :=
  (s.data i).elim (none, s) fun a => (some a, s.setData i none)

def acquireDataToHandle (s : UniqueHandles Address) (i : Nat) (p : Option Address) :
    UniqueHandles Address :=
  p.elim s fun a =>
    if s.data i = some a then s else (s.releaseResourseChecked i).setData i (some a)

/-- `if (IsValid()) Release()`. -/
def releaseIfValid (s : UniqueHandles Address) (i : Nat) : UniqueHandles Address :=
  if s.isValid i then s.releaseResourseChecked i else s

def construct (s : UniqueHandles Address) : UniqueHandles Address :=
  { s with handles := s.handles ++ [some none] }

/-- `UniqueMemoryHandle(T*)`. -/
def ofPointer (s : UniqueHandles Address) (p : Option Address) : UniqueHandles Address :=
  s.construct.acquireDataToHandle s.handles.length p

/-- `~UniqueMemoryHandle`. -/
def destruct (s : UniqueHandles Address) (i : Nat) : UniqueHandles Address :=
  let s := s.releaseIfValid i
  { s with handles := s.handles.set i none }

def moveConstruct (s : UniqueHandles Address) (i : Nat) : UniqueHandles Address :=
  let r := s.construct.retrieveResourse i
  r.2.acquireDataToHandle s.handles.length r.1

def moveAssign (s : UniqueHandles Address) (i j : Nat) : UniqueHandles Address :=
  if i = j then s
  else
    let r := (s.releaseIfValid i).retrieveResourse j
    r.2.acquireDataToHandle i r.1

def resetNew (s : UniqueHandles Address) (i : Nat) (a : Address) : UniqueHandles Address :=
  (s.harzNew a).acquireDataToHandle i (some a)

/-- `Reset(T*)`. -/
def resetPointer (s : UniqueHandles Address) (i : Nat) (p : Option Address) : UniqueHandles Address :=
  if s.data i = p then s
  else if p = none then s.releaseResourseChecked i
  else s.acquireDataToHandle i p

/-- The body of `Reset(UniqueMemoryHandle)`, whose parameter is the handle `j`. The program ends
at its `ERROR`. -/
def resetBy (s : UniqueHandles Address) (i j : Nat) : Option (UniqueHandles Address) :=
  if s.data i = s.data j then none
  else if s.isValid j then
    let r := s.retrieveResourse j
    some (r.2.acquireDataToHandle i r.1)
  else some (s.releaseResourseChecked i)

/-- `Reset(UniqueMemoryHandle)`: the parameter is destroyed afterwards. -/
def reset (s : UniqueHandles Address) (i j : Nat) : Option (UniqueHandles Address) :=
  ((s.moveConstruct j).resetBy i s.handles.length).map fun t => t.destruct s.handles.length

/-- No object lives at the address. -/
def isFree (s : UniqueHandles Address) (a : Address) : Bool := (s.objects a).isNone

/-- The program keeps the pointer. -/
def keeps (s : UniqueHandles Address) (p : Option Address) : Bool := p.all fun a => a ∈ s.raw

/-- The program lets the pointer go. -/
def letGo (s : UniqueHandles Address) (p : Option Address) : UniqueHandles Address :=
  { s with raw := p.elim s.raw s.raw.erase }

def keep (s : UniqueHandles Address) (p : Option Address) : UniqueHandles Address :=
  { s with raw := p.toList ++ s.raw }

def step (s : UniqueHandles Address) : UniqueOperation Address → Option (UniqueHandles Address)
  | .allocate a => if s.isFree a then some ((s.harzNew a).keep (some a)) else none
  | .delete a => if s.keeps (some a) then some ((s.letGo (some a)).harzDelete a) else none
  | .construct => some s.construct
  | .create a => if s.isFree a then some ((s.harzNew a).ofPointer (some a)) else none
  | .ofPointer p => if s.keeps p then some ((s.letGo p).ofPointer p) else none
  | .move i => if s.isLive i then some (s.moveConstruct i) else none
  | .moveAssign i j => if s.isLive i ∧ s.isLive j then some (s.moveAssign i j) else none
  | .resetNew i a => if s.isLive i ∧ s.isFree a then some (s.resetNew i a) else none
  | .resetPointer i p =>
    if s.isLive i ∧ (s.data i = p ∨ s.keeps p) then some ((s.letGo p).resetPointer i p) else none
  | .reset i j => if s.isLive i ∧ s.isLive j then s.reset i j else none
  | .retrieve i =>
    let r := s.retrieveResourse i
    if s.isLive i then some (r.2.keep r.1) else none
  | .release i => if s.isLive i then some (s.releaseResourseChecked i) else none
  | .destroy i => if s.isLive i then some (s.destruct i) else none

/-- How often the address stands in a handle or among the raw pointers of the program. -/
def owners (s : UniqueHandles Address) (a : Address) : Nat :=
  s.handles.count (some (some a)) + s.raw.count a

variable {s s' : UniqueHandles Address} {i j : Nat} {p : Option Address} {a : Address}
  {hand : List Address}

omit [DecidableEq Address] in
theorem isLive_iff : s.isLive i = true ↔ ∃ p, s.handles[i]? = some (some p) := by
  unfold isLive
  rw [Option.isSome_iff_exists]
  simp only [Option.join_eq_some_iff]

omit [DecidableEq Address] in
theorem handles_data (h : s.isLive i = true) : s.handles[i]? = some (some (s.data i)) := by
  obtain ⟨p, hp⟩ := isLive_iff.mp h
  simp [data, hp]

omit [DecidableEq Address] in
theorem isLive_of_data (h : s.data i = some a) : s.isLive i = true := by
  exact isLive_iff.mpr ⟨some a, Option.join_eq_some_iff.mp (Option.join_eq_some_iff.mp h)⟩

omit [DecidableEq Address] in
theorem setData_data (hi : s.isLive i = true) : (s.setData i p).data j = if j = i then p else s.data j := by
  have hlt := (List.getElem?_eq_some_iff.mp (handles_data hi)).1
  unfold data setData
  by_cases hij : j = i
  · subst hij
    rw [if_pos rfl, List.getElem?_set_self hlt]
    rfl
  · rw [if_neg hij, List.getElem?_set_ne (Ne.symm hij)]

omit [DecidableEq Address] in
theorem setData_isLive (hi : s.isLive i = true) : (s.setData i p).isLive j = s.isLive j := by
  have hlt := (List.getElem?_eq_some_iff.mp (handles_data hi)).1
  by_cases hij : j = i
  · subst hij
    rw [hi]
    exact isLive_iff.mpr ⟨p, List.getElem?_set_self hlt⟩
  · unfold isLive setData
    rw [List.getElem?_set_ne (Ne.symm hij)]

theorem owners_setData (hi : s.isLive i = true) (b : Address) :
    (s.setData i p).owners b + (if s.data i = some b then 1 else 0) =
      s.owners b + if p = some b then 1 else 0 := by
  have hat := handles_data hi
  obtain ⟨hlt, hget⟩ := List.getElem?_eq_some_iff.mp hat
  have hcount : (s.setData i p).handles.count (some (some b)) =
      s.handles.count (some (some b)) - (if s.data i = some b then 1 else 0) +
        if p = some b then 1 else 0 := by
    unfold setData
    rw [List.count_set hlt, hget]
    simp
  have hpos : s.data i = some b → 0 < s.handles.count (some (some b)) := fun hb =>
    List.count_pos_iff.mpr (hb ▸ List.mem_of_getElem? hat)
  have hraw : (s.setData i p).raw = s.raw := rfl
  unfold owners
  rw [hcount, hraw]
  split
  · next hb =>
    have hone := hpos hb
    omega
  · omega

/-- Every object either has been deleted once or lives at one address that one owner has: a
handle, the program, or the function that is running, whose pointers are `hand`. -/
structure Owned (s : UniqueHandles Address) (hand : List Address) : Prop where
  owners : ∀ a, s.owners a + hand.count a = if (s.objects a).isSome then 1 else 0
  injective : ∀ a b n, s.objects a = some n → s.objects b = some n → a = b
  fresh : ∀ a n, s.objects a = some n → n < s.allocations ∧ some n ∉ s.deleted
  once : s.deleted.Nodup
  known : ∀ x ∈ s.deleted, ∃ n < s.allocations, x = some n
  every : ∀ n < s.allocations, some n ∈ s.deleted ∨ ∃ a, s.objects a = some n

theorem empty_owned : Owned (empty : UniqueHandles Address) [] where
  owners _ := rfl
  injective _ _ _ h := nomatch h
  fresh _ _ h := nomatch h
  once := List.nodup_nil
  known _ h := nomatch h
  every _ h := absurd h (Nat.not_lt_zero _)

/-- Pointers go from one owner to another. -/
theorem Owned.pass {hand' : List Address} (h : Owned s hand) (hobjects : s'.objects = s.objects)
    (hallocations : s'.allocations = s.allocations) (hdeleted : s'.deleted = s.deleted)
    (howners : ∀ a, s'.owners a + hand'.count a = s.owners a + hand.count a) : Owned s' hand' where
  owners a := by
    rw [howners, hobjects]
    exact h.owners a
  injective := hobjects ▸ h.injective
  fresh := hobjects ▸ hallocations ▸ hdeleted ▸ h.fresh
  once := hdeleted ▸ h.once
  known := hallocations ▸ hdeleted ▸ h.known
  every := hobjects ▸ hallocations ▸ hdeleted ▸ h.every

theorem Owned.lives (h : Owned s hand) (ha : 0 < s.owners a + hand.count a) :
    ∃ n, s.objects a = some n := by
  rw [h.owners] at ha
  split at ha
  · next hsome => exact Option.isSome_iff_exists.mp hsome
  · exact absurd ha (Nat.lt_irrefl 0)

theorem owners_pos (hi : s.data i = some a) : 0 < s.owners a := by
  have hmem := List.mem_of_getElem? (handles_data (isLive_of_data hi))
  rw [hi] at hmem
  have hpos := List.count_pos_iff.mpr hmem
  unfold owners
  omega

/-- A pointer is taken out of a handle. -/
theorem Owned.take (h : Owned s hand) (hi : s.data i = some a) :
    Owned (s.setData i none) (a :: hand) := by
  refine h.pass rfl rfl rfl fun b => ?_
  have hcount := owners_setData (p := none) (isLive_of_data hi) b
  rw [List.count_cons]
  grind

/-- A pointer is put into an empty handle. -/
theorem Owned.put (h : Owned s (a :: hand)) (hlive : s.isLive i = true) (hi : s.data i = none) :
    Owned (s.setData i (some a)) hand := by
  refine h.pass rfl rfl rfl fun b => ?_
  have hcount := owners_setData (p := some a) hlive b
  rw [List.count_cons]
  grind

theorem Owned.harzDelete (h : Owned s (a :: hand)) : Owned (s.harzDelete a) hand := by
  obtain ⟨n, hn⟩ := h.lives (a := a) (by simp)
  have hother : ∀ {b m}, (s.harzDelete a).objects b = some m → b ≠ a ∧ s.objects b = some m := by
    intro b m hb
    by_cases hba : b = a
    · subst hba
      exact nomatch (Function.update_self ..).symm.trans hb
    · exact ⟨hba, (Function.update_of_ne hba ..).symm.trans hb⟩
  have hdeleted : (s.harzDelete a).deleted = s.deleted ++ [some n] := by
    rw [← hn]
    rfl
  refine ⟨fun b => ?_, fun b c m hb hc => ?_, fun b m hb => ?_, ?_, fun x hx => ?_, fun m hm => ?_⟩
  · have hb := h.owners b
    rw [List.count_cons] at hb
    have howners : (s.harzDelete a).owners b = s.owners b := rfl
    by_cases hba : b = a
    · subst hba
      have hnone : (s.harzDelete b).objects b = none := Function.update_self ..
      rw [howners, hnone]
      rw [hn] at hb
      simp at hb ⊢
      omega
    · have hsame : (s.harzDelete a).objects b = s.objects b := Function.update_of_ne hba ..
      rw [howners, hsame, ← hb, if_neg (by simpa using Ne.symm hba)]
      rfl
  · exact h.injective b c m (hother hb).2 (hother hc).2
  · obtain ⟨hba, hb⟩ := hother hb
    obtain ⟨hlt, hnot⟩ := h.fresh b m hb
    refine ⟨hlt, ?_⟩
    rw [hdeleted, List.mem_append, List.mem_singleton, not_or]
    exact ⟨hnot, fun hmn => hba (h.injective b a n (Option.some.inj hmn ▸ hb) hn)⟩
  · rw [hdeleted]
    exact List.concat_eq_append ▸ h.once.concat (h.fresh a n hn).2
  · rw [hdeleted, List.mem_append, List.mem_singleton] at hx
    rcases hx with hx | rfl
    · exact h.known x hx
    · exact ⟨n, (h.fresh a n hn).1, rfl⟩
  · rw [hdeleted, List.mem_append, List.mem_singleton]
    rcases h.every m hm with hgone | ⟨b, hb⟩
    · exact .inl (.inl hgone)
    · by_cases hba : b = a
      · subst hba
        exact .inl (.inr (hb.symm.trans hn))
      · exact .inr ⟨b, (Function.update_of_ne hba ..).trans hb⟩

theorem Owned.harzNew (h : Owned s hand) (hfree : s.isFree a = true) :
    Owned (s.harzNew a) (a :: hand) := by
  have hfree : s.objects a = none := Option.isNone_iff_eq_none.mp hfree
  have hself : (s.harzNew a).objects a = some s.allocations := Function.update_self ..
  have hold : ∀ {b}, b ≠ a → (s.harzNew a).objects b = s.objects b := fun hba =>
    Function.update_of_ne hba ..
  have hcases : ∀ {b n}, (s.harzNew a).objects b = some n →
      b = a ∧ n = s.allocations ∨ s.objects b = some n := by
    intro b n hb
    by_cases hba : b = a
    · subst hba
      exact .inl ⟨rfl, Option.some.inj (hb.symm.trans hself)⟩
    · exact .inr ((hold hba).symm.trans hb)
  have hallocations : (s.harzNew a).allocations = s.allocations + 1 := rfl
  refine ⟨fun b => ?_, fun b c n hb hc => ?_, fun b n hb => ?_, h.once, fun x hx => ?_, fun n hn => ?_⟩
  · have hb := h.owners b
    have howners : (s.harzNew a).owners b = s.owners b := rfl
    rw [howners, List.count_cons]
    by_cases hba : b = a
    · subst hba
      rw [hself]
      rw [hfree] at hb
      simp at hb ⊢
      omega
    · rw [hold hba, ← hb, if_neg (by simpa using Ne.symm hba)]
      rfl
  · rcases hcases hb with ⟨rfl, rfl⟩ | hb'
    · rcases hcases hc with ⟨rfl, -⟩ | hc'
      · rfl
      · exact absurd (h.fresh c _ hc').1 (Nat.lt_irrefl _)
    · rcases hcases hc with ⟨rfl, rfl⟩ | hc'
      · exact absurd (h.fresh b _ hb').1 (Nat.lt_irrefl _)
      · exact h.injective b c n hb' hc'
  · rw [hallocations]
    rcases hcases hb with ⟨-, rfl⟩ | hb
    · refine ⟨Nat.lt_succ_self _, fun hmem => ?_⟩
      obtain ⟨m, hm, heq⟩ := h.known _ hmem
      exact absurd hm (Option.some.inj heq ▸ Nat.lt_irrefl _)
    · exact ⟨Nat.lt_succ_of_lt (h.fresh b n hb).1, (h.fresh b n hb).2⟩
  · obtain ⟨n, hn, rfl⟩ := h.known x hx
    exact ⟨n, Nat.lt_succ_of_lt hn, rfl⟩
  · rcases Nat.lt_succ_iff_lt_or_eq.mp hn with hn | rfl
    · rcases h.every n hn with hgone | ⟨b, hb⟩
      · exact .inl hgone
      · have hba : b ≠ a := fun hba => nomatch (hba ▸ hb).symm.trans hfree
        exact .inr ⟨b, (hold hba).trans hb⟩
    · exact .inr ⟨a, hself⟩

theorem Owned.releaseResourseChecked (h : Owned s hand) : Owned (s.releaseResourseChecked i) hand := by
  unfold UniqueHandles.releaseResourseChecked
  cases hi : s.data i with
  | none => exact h
  | some a => exact (h.take hi).harzDelete

theorem releaseResourseChecked_data (hi : s.isLive i = true) :
    (s.releaseResourseChecked i).data j = if j = i then none else s.data j := by
  unfold releaseResourseChecked
  cases hd : s.data i with
  | none =>
    split
    · next hji => exact hji ▸ hd
    · rfl
  | some a => exact setData_data (s := s.harzDelete a) hi

theorem releaseResourseChecked_isLive : (s.releaseResourseChecked i).isLive j = s.isLive j := by
  unfold releaseResourseChecked
  cases hd : s.data i with
  | none => rfl
  | some a => exact setData_isLive (s := s.harzDelete a) (isLive_of_data hd)

theorem Owned.releaseIfValid (h : Owned s hand) : Owned (s.releaseIfValid i) hand := by
  unfold UniqueHandles.releaseIfValid
  split
  · exact h.releaseResourseChecked
  · exact h

theorem releaseIfValid_data (hi : s.isLive i = true) :
    (s.releaseIfValid i).data j = if j = i then none else s.data j := by
  unfold releaseIfValid
  split
  · exact releaseResourseChecked_data hi
  · next hnot =>
    have hd : s.data i = none := by simpa [isValid] using hnot
    split
    · next hji => exact hji ▸ hd
    · rfl

theorem releaseIfValid_isLive : (s.releaseIfValid i).isLive j = s.isLive j := by
  unfold releaseIfValid
  split
  · exact releaseResourseChecked_isLive
  · rfl

omit [DecidableEq Address] in
theorem retrieveResourse_fst : (s.retrieveResourse i).1 = s.data i := by
  unfold retrieveResourse
  cases s.data i with
  | none => rfl
  | some a => rfl

theorem Owned.retrieveResourse (h : Owned s hand) :
    Owned (s.retrieveResourse i).2 ((s.retrieveResourse i).1.toList ++ hand) := by
  unfold UniqueHandles.retrieveResourse
  cases hi : s.data i with
  | none => exact h
  | some a => exact h.take hi

omit [DecidableEq Address] in
theorem retrieveResourse_isLive : (s.retrieveResourse i).2.isLive j = s.isLive j := by
  unfold retrieveResourse
  cases hi : s.data i with
  | none => rfl
  | some a => exact setData_isLive (isLive_of_data hi)

omit [DecidableEq Address] in
theorem retrieveResourse_data :
    (s.retrieveResourse i).2.data j = if j = i then none else s.data j := by
  unfold retrieveResourse
  cases hi : s.data i with
  | none =>
    split
    · next hji => exact hji ▸ hi
    · rfl
  | some a => exact setData_data (isLive_of_data hi)

/-- A pointer that somebody has is in no handle. -/
theorem Owned.ne_data (h : Owned s (a :: hand)) : s.data i ≠ some a := by
  intro hi
  have hpos := owners_pos hi
  have howners := h.owners a
  rw [List.count_cons_self] at howners
  split at howners <;> omega

theorem Owned.acquireDataToHandle (h : Owned s (p.toList ++ hand)) (hi : s.isLive i = true) :
    Owned (s.acquireDataToHandle i p) hand := by
  cases p with
  | none => exact h
  | some a =>
    have h : Owned s (a :: hand) := h
    have hne : s.data i ≠ some a := h.ne_data
    have hrun : s.acquireDataToHandle i (some a) = (s.releaseResourseChecked i).setData i (some a) :=
      if_neg hne
    rw [hrun]
    refine h.releaseResourseChecked.put ?_ ?_
    · rw [releaseResourseChecked_isLive, hi]
    · rw [releaseResourseChecked_data hi, if_pos rfl]

theorem acquireDataToHandle_isLive (hi : s.isLive i = true) :
    (s.acquireDataToHandle i p).isLive j = s.isLive j := by
  cases p with
  | none => rfl
  | some a =>
    show (if s.data i = some a then s else (s.releaseResourseChecked i).setData i (some a)).isLive j = _
    split
    · rfl
    · rw [setData_isLive (releaseResourseChecked_isLive.trans hi), releaseResourseChecked_isLive]

theorem acquireDataToHandle_data (hlive : s.isLive i = true) (hi : s.data i = none) :
    (s.acquireDataToHandle i p).data j = if j = i then p else s.data j := by
  cases p with
  | none =>
    split
    · next hji => exact hji ▸ hi
    · rfl
  | some a =>
    have hne : s.data i ≠ some a := hi ▸ (Option.some_ne_none a).symm
    have hrun : s.acquireDataToHandle i (some a) = (s.releaseResourseChecked i).setData i (some a) :=
      if_neg hne
    rw [hrun, setData_data (releaseResourseChecked_isLive.trans hlive), releaseResourseChecked_data hlive]
    split <;> rfl

theorem Owned.construct (h : Owned s hand) : Owned s.construct hand := by
  refine h.pass rfl rfl rfl fun a => ?_
  unfold UniqueHandles.owners UniqueHandles.construct
  rw [List.count_append]
  simp

omit [DecidableEq Address] in
theorem construct_isLive_new : s.construct.isLive s.handles.length = true :=
  isLive_iff.mpr ⟨none, List.getElem?_concat_length⟩

omit [DecidableEq Address] in
theorem construct_isLive (hi : s.isLive i = true) : s.construct.isLive i = true := by
  have hat := handles_data hi
  have hlt := (List.getElem?_eq_some_iff.mp hat).1
  exact isLive_iff.mpr ⟨_, (List.getElem?_append_left hlt).trans hat⟩

omit [DecidableEq Address] in
theorem construct_data : s.construct.data j = s.data j := by
  unfold data UniqueHandles.construct
  by_cases hlt : j < s.handles.length
  · rw [List.getElem?_append_left hlt]
  · rw [List.getElem?_append_right (Nat.le_of_not_lt hlt), List.getElem?_eq_none (Nat.le_of_not_lt hlt)]
    cases j - s.handles.length <;> rfl

theorem Owned.ofPointer (h : Owned s (p.toList ++ hand)) : Owned (s.ofPointer p) hand :=
  h.construct.acquireDataToHandle construct_isLive_new

/-- The place of a handle is given up once it is empty. -/
theorem Owned.closed (h : Owned s hand) (hlive : s.isLive i = true) (hi : s.data i = none) :
    Owned { s with handles := s.handles.set i none } hand := by
  have hat := handles_data hlive
  obtain ⟨hlt, hget⟩ := List.getElem?_eq_some_iff.mp hat
  refine h.pass rfl rfl rfl fun a => ?_
  unfold UniqueHandles.owners
  rw [List.count_set hlt, hget, hi]
  simp

theorem Owned.destruct (h : Owned s hand) (hi : s.isLive i = true) : Owned (s.destruct i) hand :=
  h.releaseIfValid.closed (releaseIfValid_isLive.trans hi) ((releaseIfValid_data hi).trans (if_pos rfl))

theorem Owned.moveConstruct (h : Owned s hand) : Owned (s.moveConstruct i) hand :=
  h.construct.retrieveResourse.acquireDataToHandle (retrieveResourse_isLive.trans construct_isLive_new)

theorem moveConstruct_isLive_new : (s.moveConstruct i).isLive s.handles.length = true := by
  have hnew := (retrieveResourse_isLive (i := i)).trans (construct_isLive_new (s := s))
  exact (acquireDataToHandle_isLive hnew).trans hnew

theorem moveConstruct_isLive (hj : s.isLive j = true) : (s.moveConstruct i).isLive j = true := by
  have hnew := (retrieveResourse_isLive (i := i)).trans (construct_isLive_new (s := s))
  exact (acquireDataToHandle_isLive hnew).trans (retrieveResourse_isLive.trans (construct_isLive hj))

/-- The pointer goes from one handle to the new one. -/
theorem moveConstruct_data (hi : s.isLive i = true) : (s.moveConstruct i).data j =
    if j = s.handles.length then s.data i else if j = i then none else s.data j := by
  have hlt := (List.getElem?_eq_some_iff.mp (handles_data hi)).1
  have hnone : s.data s.handles.length = none := by simp [data]
  have hlive := (retrieveResourse_isLive (i := i)).trans (construct_isLive_new (s := s))
  have hempty : (s.construct.retrieveResourse i).2.data s.handles.length = none := by
    rw [retrieveResourse_data, construct_data, hnone]
    split <;> rfl
  unfold moveConstruct
  rw [acquireDataToHandle_data hlive hempty, retrieveResourse_fst, retrieveResourse_data, construct_data,
    construct_data]

theorem Owned.moveAssign (h : Owned s hand) (hi : s.isLive i = true) : Owned (s.moveAssign i j) hand := by
  unfold UniqueHandles.moveAssign
  split
  · exact h
  · exact h.releaseIfValid.retrieveResourse.acquireDataToHandle
      (retrieveResourse_isLive.trans (releaseIfValid_isLive.trans hi))

theorem Owned.resetNew (h : Owned s hand) (hfree : s.isFree a = true) (hi : s.isLive i = true) :
    Owned (s.resetNew i a) hand :=
  (h.harzNew hfree).acquireDataToHandle (p := some a) hi

/-- The pointer of another owner takes the place of the handle's own. -/
theorem Owned.resetPointer (h : Owned s (p.toList ++ hand)) (hi : s.isLive i = true) :
    Owned (s.resetPointer i p) hand := by
  unfold UniqueHandles.resetPointer
  split
  · next hown =>
    cases p with
    | none => exact h
    | some a =>
      have h : Owned s (a :: hand) := h
      exact absurd hown h.ne_data
  · split
    · next hnull =>
      subst hnull
      have h : Owned s hand := h
      exact h.releaseResourseChecked
    · exact h.acquireDataToHandle hi

theorem Owned.resetBy (h : Owned s hand) (hi : s.isLive i = true) (hs : s.resetBy i j = some s') :
    Owned s' hand := by
  unfold UniqueHandles.resetBy at hs
  split at hs
  · exact nomatch hs
  · split at hs
    · cases hs
      exact h.retrieveResourse.acquireDataToHandle (retrieveResourse_isLive.trans hi)
    · cases hs
      exact h.releaseResourseChecked

theorem resetBy_isLive {k : Nat} (hi : s.isLive i = true) (hs : s.resetBy i j = some s') :
    s'.isLive k = s.isLive k := by
  unfold resetBy at hs
  split at hs
  · exact nomatch hs
  · split at hs
    · cases hs
      exact (acquireDataToHandle_isLive (retrieveResourse_isLive.trans hi)).trans retrieveResourse_isLive
    · cases hs
      exact releaseResourseChecked_isLive

theorem Owned.reset (h : Owned s hand) (hi : s.isLive i = true) (hs : s.reset i j = some s') :
    Owned s' hand := by
  obtain ⟨t, ht, rfl⟩ := Option.map_eq_some_iff.mp hs
  have hlive := moveConstruct_isLive (i := j) hi
  exact (h.moveConstruct.resetBy hlive ht).destruct
    ((resetBy_isLive hlive ht).trans moveConstruct_isLive_new)

/-- Two handles that hold something hold different objects. -/
theorem Owned.data_ne (h : Owned s hand) (hij : i ≠ j) (hi : s.data i = some a) : s.data j ≠ some a := by
  intro hj
  have htaken : (s.setData i none).data j = some a := by
    rw [setData_data (isLive_of_data hi), if_neg (Ne.symm hij), hj]
  exact (h.take hi).ne_data htaken

/-- The `ERROR` is run into with two empty handles only. -/
theorem Owned.reset_eq_none_iff (h : Owned s hand) (hi : s.isLive i = true) (hj : s.isLive j = true) :
    s.reset i j = none ↔ s.data i = none ∧ s.data j = none := by
  have hlt := (List.getElem?_eq_some_iff.mp (handles_data hi)).1
  have hsame : s.reset i j = none ↔ (if i = j then none else s.data i) = s.data j := by
    unfold UniqueHandles.reset UniqueHandles.resetBy
    rw [Option.map_eq_none_iff, moveConstruct_data hj, moveConstruct_data hj, if_neg (Nat.ne_of_lt hlt),
      if_pos rfl]
    by_cases hown : (if i = j then none else s.data i) = s.data j
    · rw [if_pos hown]
      exact ⟨fun _ => hown, fun _ => rfl⟩
    · rw [if_neg hown]
      refine ⟨fun hnone => ?_, fun heq => absurd heq hown⟩
      split at hnone
      · cases hnone
      · cases hnone
  rw [hsame]
  by_cases hij : i = j
  · subst hij
    rw [if_pos rfl]
    exact ⟨fun hnone => ⟨hnone.symm, hnone.symm⟩, fun hnone => hnone.1.symm⟩
  · rw [if_neg hij]
    constructor
    · intro heq
      cases hd : s.data i with
      | none => exact ⟨rfl, heq.symm.trans hd⟩
      | some a => exact absurd (heq.symm.trans hd) (h.data_ne hij hd)
    · exact fun hnone => hnone.1.trans hnone.2.symm

theorem Owned.letGo (h : Owned s hand) (hkeeps : s.keeps p = true) :
    Owned (s.letGo p) (p.toList ++ hand) := by
  cases p with
  | none => exact h
  | some a =>
    have hmem : a ∈ s.raw := by simpa [keeps] using hkeeps
    have hpos := List.count_pos_iff.mpr hmem
    refine h.pass rfl rfl rfl fun b => ?_
    have hcount : (s.letGo (some a)).owners b + (if a = b then 1 else 0) = s.owners b := by
      have hraw : (s.letGo (some a)).raw = s.raw.erase a := rfl
      have hhandles : (s.letGo (some a)).handles = s.handles := rfl
      unfold UniqueHandles.owners
      rw [hraw, hhandles]
      by_cases hab : a = b
      · subst hab
        rw [List.count_erase_self, if_pos rfl]
        omega
      · rw [List.count_erase_of_ne (Ne.symm hab), if_neg hab]
        rfl
    rw [Option.toList_some, List.singleton_append, List.count_cons]
    grind

theorem Owned.keep (h : Owned s (p.toList ++ hand)) : Owned (s.keep p) hand := by
  refine h.pass rfl rfl rfl fun a => ?_
  have howners : (s.keep p).owners a = s.owners a + p.toList.count a := by
    have hraw : (s.keep p).raw = p.toList ++ s.raw := rfl
    have hhandles : (s.keep p).handles = s.handles := rfl
    unfold UniqueHandles.owners
    rw [hraw, hhandles, List.count_append]
    omega
  rw [howners, List.count_append, Nat.add_assoc]

/-- The program does not have the pointer of a handle. -/
theorem Owned.letGo_own (h : Owned s hand) (hi : s.data i = p) : s.letGo p = s := by
  cases p with
  | none => rfl
  | some a =>
    have hmem := List.mem_of_getElem? (handles_data (isLive_of_data hi))
    rw [hi] at hmem
    have hpos := List.count_pos_iff.mpr hmem
    have howners := h.owners a
    unfold UniqueHandles.owners at howners
    have hzero : s.raw.count a = 0 := by split at howners <;> omega
    unfold UniqueHandles.letGo
    rw [Option.elim_some, List.erase_of_not_mem (List.count_eq_zero.mp hzero)]

theorem Owned.step {op : UniqueOperation Address} (h : Owned s []) (hs : s.step op = some s') :
    Owned s' [] := by
  unfold UniqueHandles.step at hs
  cases op with
  | allocate a =>
    obtain ⟨hfree, ⟨⟩⟩ := Option.ite_none_right_eq_some.mp hs
    exact (h.harzNew hfree).keep (p := some a)
  | delete a =>
    obtain ⟨hkeeps, ⟨⟩⟩ := Option.ite_none_right_eq_some.mp hs
    exact (h.letGo hkeeps).harzDelete
  | construct =>
    cases hs
    exact h.construct
  | create a =>
    obtain ⟨hfree, ⟨⟩⟩ := Option.ite_none_right_eq_some.mp hs
    exact (h.harzNew hfree).ofPointer (p := some a)
  | ofPointer p =>
    obtain ⟨hkeeps, ⟨⟩⟩ := Option.ite_none_right_eq_some.mp hs
    exact (h.letGo hkeeps).ofPointer
  | move i =>
    obtain ⟨-, ⟨⟩⟩ := Option.ite_none_right_eq_some.mp hs
    exact h.moveConstruct
  | moveAssign i j =>
    obtain ⟨⟨hi, -⟩, ⟨⟩⟩ := Option.ite_none_right_eq_some.mp hs
    exact h.moveAssign hi
  | resetNew i a =>
    obtain ⟨⟨hi, hfree⟩, ⟨⟩⟩ := Option.ite_none_right_eq_some.mp hs
    exact h.resetNew hfree hi
  | resetPointer i p =>
    obtain ⟨⟨hi, hkeeps⟩, ⟨⟩⟩ := Option.ite_none_right_eq_some.mp hs
    rcases hkeeps with hown | hkeeps
    · rw [h.letGo_own hown]
      unfold UniqueHandles.resetPointer
      rwa [if_pos hown]
    · exact (h.letGo hkeeps).resetPointer hi
  | reset i j =>
    obtain ⟨⟨hi, -⟩, hs⟩ := Option.ite_none_right_eq_some.mp hs
    exact h.reset hi hs
  | retrieve i =>
    obtain ⟨-, ⟨⟩⟩ := Option.ite_none_right_eq_some.mp hs
    exact h.retrieveResourse.keep
  | release i =>
    obtain ⟨-, ⟨⟩⟩ := Option.ite_none_right_eq_some.mp hs
    exact h.releaseResourseChecked
  | destroy i =>
    obtain ⟨hi, ⟨⟩⟩ := Option.ite_none_right_eq_some.mp hs
    exact h.destruct hi

theorem owned {ops : List (UniqueOperation Address)} (hrun : Machine.run step empty ops = some s) :
    Owned s [] :=
  Machine.invariant (I := fun s : UniqueHandles Address => Owned s []) (fun _ _ _ h hs => h.step hs)
    empty_owned hrun

theorem Owned.lives_data (h : Owned s hand) (hi : s.data i = some a) : s.objects a ≠ none := by
  obtain ⟨n, hn⟩ := h.lives (Nat.lt_add_right _ (owners_pos hi))
  exact hn ▸ Option.some_ne_none n

/-- What has no owner any more has been deleted. -/
theorem Owned.all_deleted (h : Owned s []) (hdata : ∀ i, s.data i = none) (hraw : s.raw = []) :
    s.deleted.Perm ((List.range s.allocations).map some) := by
  have hnobody : ∀ a, s.objects a = none := by
    intro a
    by_contra hne
    have howners := h.owners a
    rw [if_pos (Option.isSome_iff_ne_none.mpr hne), List.count_nil] at howners
    unfold UniqueHandles.owners at howners
    rw [hraw, List.count_nil] at howners
    have hmem := List.count_pos_iff.mp (Nat.lt_of_lt_of_eq Nat.zero_lt_one howners.symm)
    obtain ⟨i, hi⟩ := List.mem_iff_getElem?.mp hmem
    have hnone := hdata i
    simp [data, hi] at hnone
  refine (List.perm_ext_iff_of_nodup h.once (List.nodup_range.map (Option.some_injective _))).mpr ?_
  intro x
  rw [List.mem_map]
  constructor
  · intro hx
    obtain ⟨n, hn, rfl⟩ := h.known x hx
    exact ⟨n, List.mem_range.mpr hn, rfl⟩
  · rintro ⟨n, hn, rfl⟩
    rcases h.every n (List.mem_range.mp hn) with hgone | ⟨a, ha⟩
    · exact hgone
    · exact absurd ha (hnobody a ▸ (Option.some_ne_none n).symm)

/-- After any operations on any number of handles, each object has been deleted exactly once and
lives nowhere, or has not been deleted and lives at one address that exactly one handle or raw
pointer has. No handle dangles, and once nothing is left in a handle or in a raw pointer, each
object has been deleted once. A handle is reset by another one, or by itself, unless both are
empty. -/
theorem owned_or_deleted {ops : List (UniqueOperation Address)}
    (hrun : Machine.run step empty ops = some s) :
    (∀ n < s.allocations, (s.deleted.count (some n) = 1 ∧ ∀ a, s.objects a ≠ some n) ∨
      s.deleted.count (some n) = 0 ∧
        ∃ a, s.objects a = some n ∧ s.owners a = 1 ∧ ∀ b, s.objects b = some n → b = a) ∧
    none ∉ s.deleted ∧ (∀ i a, s.data i = some a → s.objects a ≠ none) ∧
    ((∀ i, s.data i = none) → s.raw = [] → s.deleted.Perm ((List.range s.allocations).map some)) ∧
    ∀ i j, s.isLive i = true → s.isLive j = true →
      (s.step (.reset i j) = none ↔ s.data i = none ∧ s.data j = none) := by
  have h := owned hrun
  refine ⟨fun n hn => ?_, fun hnone => ?_, fun i a => h.lives_data, h.all_deleted, fun i j hi hj => ?_⟩
  · rcases h.every n hn with hgone | ⟨a, ha⟩
    · exact .inl ⟨List.count_eq_one_of_mem h.once hgone, fun a ha => (h.fresh a n ha).2 hgone⟩
    · have howners := h.owners a
      rw [ha, List.count_nil] at howners
      exact .inr ⟨List.count_eq_zero.mpr (h.fresh a n ha).2, a, ha, howners,
        fun b hb => h.injective b a n hb ha⟩
  · obtain ⟨n, -, hn⟩ := h.known none hnone
    exact absurd hn.symm (Option.some_ne_none n)
  · have hrun : s.step (.reset i j) = s.reset i j := if_pos ⟨hi, hj⟩
    rw [hrun]
    exact h.reset_eq_none_iff hi hj

/-- Two objects change their handles and an address is used again. -/
def handedOver : List (UniqueOperation Nat) :=
  [.create 7, .construct, .moveAssign 1 0, .allocate 8, .resetPointer 1 (some 8),
    .resetNew 0 7, .reset 0 1, .reset 0 0, .move 0, .retrieve 4, .delete 8, .destroy 4, .destroy 1,
    .destroy 0]

theorem owned_or_deleted_handedOver : ∃ s : UniqueHandles Nat,
    Machine.run step empty handedOver = some s ∧ s.allocations = 3 ∧
    s.deleted = [some 0, some 2, some 1] ∧
    (∀ n < s.allocations, (s.deleted.count (some n) = 1 ∧ ∀ a, s.objects a ≠ some n) ∨
      s.deleted.count (some n) = 0 ∧
        ∃ a, s.objects a = some n ∧ s.owners a = 1 ∧ ∀ b, s.objects b = some n → b = a) ∧
    none ∉ s.deleted ∧ (∀ i a, s.data i = some a → s.objects a ≠ none) ∧
    ((∀ i, s.data i = none) → s.raw = [] → s.deleted.Perm ((List.range s.allocations).map some)) ∧
    ∀ i j, s.isLive i = true → s.isLive j = true →
      (s.step (.reset i j) = none ↔ s.data i = none ∧ s.data j = none) := by
  have hrun : (Machine.run step (empty : UniqueHandles Nat) handedOver).map
      (fun s => (s.allocations, s.deleted)) = some (3, [some 0, some 2, some 1]) := by decide
  obtain ⟨s, hs, h⟩ := Option.map_eq_some_iff.mp hrun
  obtain ⟨hallocations, hdeleted⟩ := Prod.mk.inj h
  exact ⟨s, hs, hallocations, hdeleted, owned_or_deleted hs⟩

end Update

end UniqueHandles

end AsciiTerra
