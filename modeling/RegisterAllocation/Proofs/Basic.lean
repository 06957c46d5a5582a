import RegisterAllocation.Allocation.Fixed
import Mathlib.Data.Int.Interval

/-!
# Outcomes and searches

What the success of a computation says about its parts, and what the search for a free register
finds. A search passes over a register only if something is in the way there, so that it does not
get far when there is little in the way.
-/

namespace RegisterAllocation

/-! ## Outcomes -/

/-- Both parts of a computation that succeeds do. -/
theorem bind_eq_ok {ε α β : Type} {x : Except ε α} {f : α → Except ε β} {b : β}
    (h : x >>= f = .ok b) : ∃ a, x = .ok a ∧ f a = .ok b := by
  cases x with
  | error e => cases h
  | ok a => exact ⟨a, rfl, h⟩

/-- One of the two parts of a computation that fails does. -/
theorem bind_eq_error {ε α β : Type} {x : Except ε α} {f : α → Except ε β} {e : ε}
    (h : x >>= f = .error e) : x = .error e ∨ ∃ a, x = .ok a ∧ f a = .error e := by
  cases x with
  | error e' => exact .inl (congrArg _ (Except.error.inj h))
  | ok a => exact .inr ⟨a, rfl, h⟩

theorem map_bind_eq {ε α β γ : Type} {x : Except ε α} {f : α → Except ε β} {p : β → γ} :
    (x >>= f).map p = x >>= fun a => (f a).map p := by
  cases x <;> rfl

/-- Computations with the same results can go on in the same way. -/
theorem bind_eq_bind_of_map {ε α β γ δ : Type} {x : Except ε α} {y : Except ε β} {p : α → γ}
    {k : β → γ} (h : x.map p = y.map k) {f : α → Except ε δ} {g : β → Except ε δ}
    (hnext : ∀ a b, p a = k b → f a = g b) : x >>= f = y >>= g := by
  cases x with
  | error e =>
    cases y with
    | error e' =>
      cases h
      rfl
    | ok b => cases h
  | ok a =>
    cases y with
    | error e => cases h
    | ok b => exact hnext a b (Except.ok.inj h)

theorem mapError_eq_ok {ε ε' α : Type} {x : Except ε α} {f : ε → ε'} {a : α}
    (h : x.mapError f = .ok a) : x = .ok a := by
  cases x with
  | error e => cases h
  | ok a => cases h; rfl

/-- A result that was changed comes from a result. -/
theorem map_eq_ok {ε α β : Type} {x : Except ε α} {f : α → β} {b : β} (h : x.map f = .ok b) :
    ∃ a, x = .ok a ∧ f a = b := by
  cases x with
  | error e => cases h
  | ok a => exact ⟨a, rfl, Except.ok.inj h⟩

theorem Failure.lift_eq_ok {α : Type} {x : Except Fault α} {a : α} (h : Failure.lift x = .ok a) :
    x = .ok a := mapError_eq_ok h

/-- A check of a list succeeds for every element. -/
theorem forM_eq_ok {ε α : Type} {f : α → Except ε Unit} {xs : List α} (h : xs.forM f = .ok ()) :
    ∀ x ∈ xs, f x = .ok () := by
  induction xs with
  | nil => simp
  | cons x xs ih =>
    obtain ⟨⟨⟩, hx, h⟩ := bind_eq_ok h
    exact List.forall_mem_cons.mpr ⟨hx, ih h⟩

/-- A check that succeeds for every element succeeds for the list. -/
theorem forM_of_forall {ε α : Type} {f : α → Except ε Unit} {xs : List α}
    (h : ∀ x ∈ xs, f x = .ok ()) : xs.forM f = .ok () := by
  induction xs with
  | nil => rfl
  | cons x xs ih =>
    obtain ⟨hx, hxs⟩ := List.forall_mem_cons.mp h
    have hstep : (x :: xs).forM f = (f x >>= fun _ => xs.forM f) := rfl
    rw [hstep, hx]
    exact ih hxs

/-- A computation that succeeds for every element gives the list of the results. -/
theorem mapM_eq_ok {ε α β : Type} {f : α → Except ε β} {g : α → β} {xs : List α}
    (h : ∀ x ∈ xs, f x = .ok (g x)) : xs.mapM f = .ok (xs.map g) := by
  induction xs with
  | nil => rfl
  | cons x xs ih =>
    rw [List.mapM_cons, h x List.mem_cons_self, ih fun y hy => h y (List.mem_cons_of_mem _ hy)]
    rfl

/-- A computation for a list succeeds for the first element and for the rest. -/
theorem mapM_cons_eq_ok {ε α β : Type} {f : α → Except ε β} {x : α} {xs : List α} {ys : List β}
    (h : (x :: xs).mapM f = .ok ys) :
    ∃ y zs, f x = .ok y ∧ xs.mapM f = .ok zs ∧ ys = y :: zs := by
  rw [List.mapM_cons] at h
  obtain ⟨y, hy, h⟩ := bind_eq_ok h
  obtain ⟨zs, hzs, h⟩ := bind_eq_ok h
  exact ⟨y, zs, hy, hzs, (Except.ok.inj h).symm⟩

theorem length_of_mapM_eq_ok {ε α β : Type} {f : α → Except ε β} {xs : List α} {ys : List β}
    (h : xs.mapM f = .ok ys) : ys.length = xs.length := by
  induction xs generalizing ys with
  | nil =>
    cases h
    rfl
  | cons x xs ih =>
    obtain ⟨y, zs, -, hzs, rfl⟩ := mapM_cons_eq_ok h
    simp [ih hzs]

theorem exists_of_mapM_eq_ok {ε α β : Type} {f : α → Except ε β} {xs : List α} {ys : List β}
    (h : xs.mapM f = .ok ys) : ∀ x ∈ xs, ∃ y, f x = .ok y := by
  induction xs generalizing ys with
  | nil => simp
  | cons x xs ih =>
    obtain ⟨y, zs, hy, hzs, rfl⟩ := mapM_cons_eq_ok h
    exact List.forall_mem_cons.mpr ⟨⟨y, hy⟩, ih hzs⟩

/-- Every result comes from an element. -/
theorem exists_of_mem_mapM {ε α β : Type} {f : α → Except ε β} {xs : List α} {ys : List β} {y : β}
    (h : xs.mapM f = .ok ys) (hy : y ∈ ys) : ∃ x ∈ xs, f x = .ok y := by
  induction xs generalizing ys with
  | nil =>
    cases h
    simp at hy
  | cons x xs ih =>
    obtain ⟨z, zs, hz, hzs, rfl⟩ := mapM_cons_eq_ok h
    obtain rfl | hy := List.mem_cons.mp hy
    · exact ⟨x, List.mem_cons_self, hz⟩
    · obtain ⟨x', hx', heq⟩ := ih hzs hy
      exact ⟨x', List.mem_cons_of_mem _ hx', heq⟩

/-- A computation succeeds for a list if and only if it does for every element. -/
theorem exists_mapM_iff {ε α β : Type} {f : α → Except ε β} {xs : List α} :
    (∃ ys, xs.mapM f = .ok ys) ↔ ∀ x ∈ xs, ∃ y, f x = .ok y := by
  constructor
  · exact fun ⟨ys, h⟩ => exists_of_mapM_eq_ok h
  · intro h
    induction xs with
    | nil => exact ⟨[], rfl⟩
    | cons x xs ih =>
      obtain ⟨⟨y, hy⟩, hxs⟩ := List.forall_mem_cons.mp h
      obtain ⟨ys, hys⟩ := ih hxs
      exact ⟨y :: ys, by rw [List.mapM_cons, hy, hys]; rfl⟩

/-- A fold whose steps succeed or not whatever came before. -/
theorem exists_foldlM_iff {ε α σ : Type} {f : σ → α → Except ε σ} {P : α → Prop} {xs : List α}
    (h : ∀ s x, x ∈ xs → ((∃ t, f s x = .ok t) ↔ P x)) (s : σ) :
    (∃ t, xs.foldlM f s = .ok t) ↔ ∀ x ∈ xs, P x := by
  induction xs generalizing s with
  | nil => simp [pure, Except.pure]
  | cons x xs ih =>
    have hrest := ih fun s y hy => h s y (List.mem_cons_of_mem _ hy)
    rw [List.forall_mem_cons, ← h s x List.mem_cons_self]
    constructor
    · rintro ⟨t, ht⟩
      obtain ⟨next, hnext, ht⟩ := bind_eq_ok ht
      exact ⟨⟨next, hnext⟩, (hrest next).mp ⟨t, ht⟩⟩
    · rintro ⟨⟨next, hnext⟩, hxs⟩
      obtain ⟨t, ht⟩ := (hrest next).mpr hxs
      exact ⟨t, by rw [List.foldlM_cons, hnext]; exact ht⟩

/-! ## Searches -/

namespace Register

/-- A search finds the least free register within its bounds. -/
theorem leastFrom?_eq_some {inBounds free : Register → Bool} {low register : Register}
    (h : leastFrom? inBounds free low = some register) :
    low ≤ register ∧ inBounds register = true ∧ free register = true ∧
      ∀ other, low ≤ other → other < register → free other = false := by
  fun_induction leastFrom? inBounds free low with
  | case1 low hin hfree =>
    obtain rfl : low = register := Option.some.inj h
    exact ⟨Int64.le_refl _, hin, hfree, by grind⟩
  | case2 low hin hfree hlt ih =>
    obtain ⟨hle, hbounds, hfound, hpassed⟩ := ih h
    refine ⟨by grind, hbounds, hfound, fun other hother hbelow => ?_⟩
    by_cases heq : other = low
    · simpa [heq] using hfree
    · exact hpassed other (by grind) hbelow
  | case3 low hin hfree hlt => simp at h
  | case4 low hin => simp at h

/-- A search stays within its bounds. -/
theorem inBounds_of_leastFrom? {inBounds free : Register → Bool} {low register : Register}
    (h : leastFrom? inBounds free low = some register) :
    ∀ other, low ≤ other → other ≤ register → inBounds other = true := by
  intro other hlow hhigh
  fun_induction leastFrom? inBounds free low with
  | case1 low hin hfree =>
    obtain rfl : low = register := Option.some.inj h
    obtain rfl : other = low := by grind
    exact hin
  | case2 low hin hfree hlt ih =>
    by_cases heq : other = low
    · rw [heq]
      exact hin
    · exact ih h (by grind)
  | case3 low hin hfree hlt => simp at h
  | case4 low hin => simp at h

/-- Registers add up like numbers as long as they do not wrap around. -/
theorem toInt_add {register : Register} {width : Int64} (hregister : 0 ≤ register.toInt)
    (hwidth : 0 ≤ width.toInt) (hlt : register.toInt + width.toInt < 2 ^ 63) :
    (register + width).toInt = register.toInt + width.toInt := by
  rw [Int64.toInt_add]
  exact Int.bmod_eq_of_le (by omega) (by omega)

/-- Where rows have to end before the last register, a search finds none that wraps around: to get
there, it would have passed the row that just does not. -/
theorem toInt_add_lt_of_leastFrom? {free : Register → Bool} {low high register : Register}
    {width : Int64} (hlow : 0 ≤ low.toInt) (hwidth : 0 ≤ width.toInt)
    (hfirst : low.toInt + width.toInt < 2 ^ 63) (hhigh : high < Int64.maxValue)
    (h : leastFrom? (fun register => decide (register + width ≤ high)) free low = some register) :
    register.toInt + width.toInt < 2 ^ 63 := by
  by_contra hge
  have hlast : (Int64.ofInt (2 ^ 63 - 1 - width.toInt)).toInt = 2 ^ 63 - 1 - width.toInt :=
    Int64.toInt_ofInt_of_le (by omega) (by omega)
  have hinside := inBounds_of_leastFrom? h (Int64.ofInt (2 ^ 63 - 1 - width.toInt))
    (by rw [Int64.le_iff_toInt_le, hlast]; omega) (by rw [Int64.le_iff_toInt_le, hlast]; omega)
  rw [decide_eq_true_iff, Int64.le_iff_toInt_le, toInt_add (by omega) hwidth (by omega),
    hlast] at hinside
  rw [Int64.lt_iff_toInt_lt, Int64.toInt_maxValue] at hhigh
  omega

/-- A search that finds nothing has come to its bounds, or to the last register. -/
theorem leastFrom?_eq_none {inBounds free : Register → Bool} {low : Register}
    (h : leastFrom? inBounds free low = none) :
    ∃ register, low ≤ register ∧
      (inBounds register = false ∨ free register = false ∧ register + 1 ≤ register) ∧
      ∀ other, low ≤ other → other < register → free other = false := by
  fun_induction leastFrom? inBounds free low with
  | case1 low hin hfree => simp at h
  | case2 low hin hfree hlt ih =>
    obtain ⟨register, hle, hend, hpassed⟩ := ih h
    refine ⟨register, by grind, hend, fun other hother hbelow => ?_⟩
    by_cases heq : other = low
    · simpa [heq] using hfree
    · exact hpassed other (by grind) hbelow
  | case3 low hin hfree hlt =>
    exact ⟨low, Int64.le_refl _, .inr ⟨by simpa using hfree, by grind⟩, by grind⟩
  | case4 low hin => exact ⟨low, Int64.le_refl _, .inl (by simpa using hin), by grind⟩

/-- If every register from `low` up to `high` is among the given ones, then these are at least as
many. -/
theorem sub_le_length {low high : Register} {registers : List Register}
    (h : ∀ register, low ≤ register → register < high → register ∈ registers) :
    high.toInt - low.toInt ≤ registers.length := by
  have hsub : Finset.Ico low.toInt high.toInt ⊆ (registers.map Int64.toInt).toFinset := by
    intro n hn
    obtain ⟨hlow, hhigh⟩ := Finset.mem_Ico.mp hn
    have hlt := Int64.toInt_lt high
    have hge := Int64.le_toInt low
    have hn : (Int64.ofInt n).toInt = n := Int64.toInt_ofInt_of_le (by omega) (by omega)
    rw [List.mem_toFinset, List.mem_map]
    refine ⟨Int64.ofInt n, h _ ?_ ?_, hn⟩
    · rw [Int64.le_iff_toInt_le, hn]
      exact hlow
    · rw [Int64.lt_iff_toInt_lt, hn]
      exact hhigh
  have hcard := (Finset.card_le_card hsub).trans (List.toFinset_card_le _)
  rw [Int.card_Ico, List.length_map] at hcard
  omega

end Register
end RegisterAllocation
