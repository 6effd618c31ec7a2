import Mathlib.Data.List.Forall2

/-!
Reading that may fail, one thing after the other. It fails for the first thing that fails, after all
before it went well (`mapM_eq_error_iff`), and where it does not fail there is one result for each
thing (`mapM_eq_ok_iff`).
-/

namespace TileWalk.Reading

variable {ε α β : Type} {e : ε}

theorem ok_bind {a : α} {f : α → Except ε β} : (.ok a : Except ε α) >>= f = f a := rfl

theorem error_bind {f : α → Except ε β} : (.error e : Except ε α) >>= f = .error e := rfl

theorem bind_eq_ok_iff {x : Except ε α} {f : α → Except ε β} {b : β} :
    x >>= f = .ok b ↔ ∃ a, x = .ok a ∧ f a = .ok b := by
  cases x with
  | error e => simp [bind, Except.bind]
  | ok a => simp [bind, Except.bind]

theorem bind_eq_error_iff {x : Except ε α} {f : α → Except ε β} :
    x >>= f = .error e ↔ x = .error e ∨ ∃ a, x = .ok a ∧ f a = .error e := by
  cases x with
  | error e => simp [bind, Except.bind]
  | ok a => simp [bind, Except.bind]

theorem exists_eq_error_iff {x : Except ε α} : (∃ e, x = .error e) ↔ ¬∃ a, x = .ok a := by
  cases x with
  | error e => simp
  | ok a => simp

theorem pure_ne_error {a : α} : (pure a : Except ε α) ≠ .error e := nofun

variable {f : α → Except ε β} {x : α} {xs : List α} {ys : List β}

theorem mapM_cons_eq_ok_iff :
    (x :: xs).mapM f = .ok ys ↔
      ∃ y rest, f x = .ok y ∧ xs.mapM f = .ok rest ∧ ys = y :: rest := by
  simp only [List.mapM_cons, bind_eq_ok_iff]
  constructor
  · rintro ⟨y, hy, rest, hrest, h⟩
    exact ⟨y, rest, hy, hrest, (Except.ok.inj h).symm⟩
  · rintro ⟨y, rest, hy, hrest, rfl⟩
    exact ⟨y, hy, rest, hrest, rfl⟩

theorem mapM_cons_eq_error_iff :
    (x :: xs).mapM f = .error e ↔
      f x = .error e ∨ ∃ y, f x = .ok y ∧ xs.mapM f = .error e := by
  simp only [List.mapM_cons, bind_eq_error_iff, pure_ne_error, and_false, exists_false, or_false]

theorem mapM_eq_ok_iff : xs.mapM f = .ok ys ↔ List.Forall₂ (fun x y => f x = .ok y) xs ys := by
  induction xs generalizing ys with
  | nil =>
    rw [List.forall₂_nil_left_iff, List.mapM_nil]
    exact ⟨fun h => (Except.ok.inj h).symm, fun h => h ▸ rfl⟩
  | cons x xs ih =>
    simp only [mapM_cons_eq_ok_iff, List.forall₂_cons_left_iff, ih]

/-- If a thing is read as `y` exactly where it is how `y` is written, things are read as they are
written. -/
theorem mapM_eq_ok_iff_map_eq {written : β → α} (h : ∀ x y, f x = .ok y ↔ written y = x) :
    xs.mapM f = .ok ys ↔ ys.map written = xs := by
  simp only [mapM_eq_ok_iff, h]
  rw [← List.forall₂_eq_eq_eq, List.forall₂_map_left_iff]
  exact ⟨List.Forall₂.flip, List.Forall₂.flip⟩

theorem mem_of_mapM_eq_ok (h : xs.mapM f = .ok ys) {y : β} :
    y ∈ ys ↔ ∃ x ∈ xs, f x = .ok y := by
  have hxs := mapM_eq_ok_iff.mp h
  clear h
  induction hxs with
  | nil => simp
  | cons hx _ ih => simp [ih, hx, eq_comm]

theorem exists_mapM_iff : (∃ ys, xs.mapM f = .ok ys) ↔ ∀ x ∈ xs, ∃ y, f x = .ok y := by
  induction xs with
  | nil => exact ⟨fun _ => nofun, fun _ => ⟨[], rfl⟩⟩
  | cons x xs ih =>
    rw [List.forall_mem_cons, ← ih]
    simp only [mapM_cons_eq_ok_iff]
    constructor
    · rintro ⟨_, y, rest, hy, hrest, -⟩
      exact ⟨⟨y, hy⟩, rest, hrest⟩
    · rintro ⟨⟨y, hy⟩, rest, hrest⟩
      exact ⟨_, y, rest, hy, hrest, rfl⟩

theorem mapM_eq_error_iff :
    xs.mapM f = .error e ↔
      ∃ before x after, xs = before ++ x :: after ∧ (∀ b ∈ before, ∃ y, f b = .ok y) ∧
        f x = .error e := by
  induction xs with
  | nil => simp [pure_ne_error]
  | cons x xs ih =>
    rw [mapM_cons_eq_error_iff, ih]
    constructor
    · rintro (hx | ⟨y, hy, before, bad, after, rfl, hbefore, hbad⟩)
      · exact ⟨[], x, xs, rfl, nofun, hx⟩
      · exact ⟨x :: before, bad, after, rfl, List.forall_mem_cons.mpr ⟨⟨y, hy⟩, hbefore⟩, hbad⟩
    · rintro ⟨before, bad, after, hsplit, hbefore, hbad⟩
      cases before with
      | nil =>
        obtain ⟨rfl, -⟩ := List.cons.inj hsplit
        exact .inl hbad
      | cons first before =>
        obtain ⟨rfl, hrest⟩ := List.cons.inj hsplit
        obtain ⟨⟨y, hy⟩, hbefore⟩ := List.forall_mem_cons.mp hbefore
        exact .inr ⟨y, hy, before, bad, after, hrest, hbefore, hbad⟩

theorem mapM_append_eq_error_iff {xs' : List α} :
    (xs ++ xs').mapM f = .error e ↔
      xs.mapM f = .error e ∨ ∃ ys, xs.mapM f = .ok ys ∧ xs'.mapM f = .error e := by
  simp only [List.mapM_append, bind_eq_error_iff, pure_ne_error, and_false, exists_false, or_false]

/-- Reading row by row fails as reading all that stands in the rows does. -/
theorem mapM_mapM_eq_error_iff {rows : List (List α)} :
    rows.mapM (fun row => row.mapM f) = .error e ↔ rows.flatten.mapM f = .error e := by
  induction rows with
  | nil => simp [pure_ne_error]
  | cons row rows ih =>
    rw [mapM_cons_eq_error_iff, List.flatten_cons, mapM_append_eq_error_iff, ih]

end TileWalk.Reading
