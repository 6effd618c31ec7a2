import TileWalk.Text.Label

/-!
The three subroutines of a program, and triples with one component for each of them.
-/

namespace TileWalk

/-- One of the three command lists of a program; a run starts with `f1`. -/
inductive Subroutine
  | f1
  | f2
  | f3
deriving DecidableEq, Inhabited

namespace Subroutine

/-- The subroutines in slot order. -/
def all : List Subroutine := [f1, f2, f3]

theorem mem_all (s : Subroutine) : s ∈ all := by cases s <;> decide

def index : Subroutine → Nat
  | f1 => 0
  | f2 => 1
  | f3 => 2

def label : Subroutine → String
  | f1 => "F1"
  | f2 => "F2"
  | f3 => "F3"

/-- The subroutine that a person means by `name`. -/
def ofLabel? (name : String) : Option Subroutine :=
  Text.named? label all name

end Subroutine

/-- One value for each subroutine. -/
structure Slots (α : Type) where
  f1 : α
  f2 : α
  f3 : α
deriving DecidableEq, Inhabited

namespace Slots

variable {α β : Type}

def const (a : α) : Slots α := ⟨a, a, a⟩

def get (slots : Slots α) : Subroutine → α
  | .f1 => slots.f1
  | .f2 => slots.f2
  | .f3 => slots.f3

/-- The triple with the value for `s` replaced. -/
def set (slots : Slots α) (s : Subroutine) (a : α) : Slots α :=
  match s with
  | .f1 => { slots with f1 := a }
  | .f2 => { slots with f2 := a }
  | .f3 => { slots with f3 := a }

def ofFn (f : Subroutine → α) : Slots α := ⟨f .f1, f .f2, f .f3⟩

def map (f : α → β) (slots : Slots α) : Slots β := ⟨f slots.f1, f slots.f2, f slots.f3⟩

def toList (slots : Slots α) : List α := [slots.f1, slots.f2, slots.f3]

@[ext] theorem ext_get {a b : Slots α} (h : ∀ s, a.get s = b.get s) : a = b := by
  cases a; cases b
  have h1 := h .f1
  have h2 := h .f2
  have h3 := h .f3
  simp only [get] at h1 h2 h3
  rw [h1, h2, h3]

@[simp] theorem get_const (a : α) (s : Subroutine) : (const a).get s = a := by cases s <;> rfl

@[simp] theorem get_ofFn (f : Subroutine → α) (s : Subroutine) : (ofFn f).get s = f s := by
  cases s <;> rfl

@[simp] theorem get_map (f : α → β) (slots : Slots α) (s : Subroutine) :
    (slots.map f).get s = f (slots.get s) := by cases s <;> rfl

@[simp] theorem get_set_self (slots : Slots α) (s : Subroutine) (a : α) :
    (slots.set s a).get s = a := by cases s <;> rfl

@[simp] theorem get_set_of_ne (slots : Slots α) {s t : Subroutine} (a : α) (h : t ≠ s) :
    (slots.set s a).get t = slots.get t := by
  cases s <;> cases t <;> simp_all [set, get]

@[simp] theorem set_get (slots : Slots α) (s : Subroutine) : slots.set s (slots.get s) = slots := by
  cases s <;> rfl

@[simp] theorem set_set (slots : Slots α) (s : Subroutine) (a b : α) :
    (slots.set s a).set s b = slots.set s b := by cases s <;> rfl

end Slots

end TileWalk
