import Mathlib.Tactic

/-!
# Machine words

Unsigned machine integers of a fixed width, as the naturals below `2 ^ w`. Only
the operations that never wrap are offered: the *checked* ones, which are `none`
when the exact result does not fit, and the *saturating* ones, which stop at the
end of the range.

* `Word w`: a natural number that fits in `w` bits.
* `checkedAdd`, `checkedSub`, `checkedMul`: exact, or `none`.
* `saturatingAdd`, `saturatingSub`, `saturatingMul`: exact, or the end of the range.

Every operation comes with what it does to the value: nothing here is meant to
be unfolded later on.
-/

namespace Detta

/-- An unsigned machine integer of `w` bits. -/
@[ext]
structure Word (w : ℕ) where
  val : ℕ
  isLt : val < 2 ^ w
deriving DecidableEq

namespace Word

variable {w : ℕ}

/-- Truncation to the lower `w` bits. -/
def ofNat (w n : ℕ) : Word w := ⟨n % 2 ^ w, Nat.mod_lt _ (Nat.two_pow_pos w)⟩

instance (n : ℕ) : OfNat (Word w) n := ⟨ofNat w n⟩

instance : Inhabited (Word w) := ⟨0⟩

instance : Repr (Word w) := ⟨fun a _ => repr a.val⟩

instance : LE (Word w) := ⟨fun a b => a.val ≤ b.val⟩

instance : LT (Word w) := ⟨fun a b => a.val < b.val⟩

instance : DecidableLE (Word w) := fun a b => inferInstanceAs (Decidable (a.val ≤ b.val))

instance : DecidableLT (Word w) := fun a b => inferInstanceAs (Decidable (a.val < b.val))

instance : Ord (Word w) := ⟨compareOn Word.val⟩

instance : Std.TransOrd (Word w) := inferInstanceAs (Std.TransCmp (compareOn Word.val))

instance : Std.LawfulEqOrd (Word w) where
  compare_self {a} := Nat.compare_eq_eq.2 (rfl : a.val = a.val)
  eq_of_compare h := Word.ext (Nat.compare_eq_eq.1 h)

theorem le_def {a b : Word w} : a ≤ b ↔ a.val ≤ b.val := Iff.rfl

theorem lt_def {a b : Word w} : a < b ↔ a.val < b.val := Iff.rfl

theorem val_inj {a b : Word w} : a.val = b.val ↔ a = b := ⟨Word.ext, fun h => h ▸ rfl⟩

@[simp] theorem val_zero : (0 : Word w).val = 0 := Nat.zero_mod _

theorem val_ofNat_of_lt {n : ℕ} (h : n < 2 ^ w) : (ofNat w n).val = n := Nat.mod_eq_of_lt h

/-- The largest word. -/
def max (w : ℕ) : Word w := ⟨2 ^ w - 1, Nat.sub_lt (Nat.two_pow_pos w) Nat.one_pos⟩

/-- The word of a natural number, if it fits. -/
def ofNat? (w n : ℕ) : Option (Word w) := if h : n < 2 ^ w then some ⟨n, h⟩ else none

theorem ofNat?_eq_some {n : ℕ} {a : Word w} : ofNat? w n = some a ↔ a.val = n := by
  unfold ofNat?
  split
  next h => simp only [Option.some.injEq, Word.ext_iff]; exact eq_comm
  next h =>
    refine ⟨fun h' => absurd h' (by simp), fun h' => absurd (h' ▸ a.isLt) h⟩

/-- The word nearest to a natural number. -/
def clamp (w n : ℕ) : Word w := if h : n < 2 ^ w then ⟨n, h⟩ else max w

/-! ## Checked arithmetic -/

/-- Addition, `none` on overflow. -/
def checkedAdd (a b : Word w) : Option (Word w) := ofNat? w (a.val + b.val)

/-- Subtraction, `none` on underflow. -/
def checkedSub (a b : Word w) : Option (Word w) :=
  if b.val ≤ a.val then some ⟨a.val - b.val, Nat.lt_of_le_of_lt (Nat.sub_le _ _) a.isLt⟩ else none

/-- Multiplication, `none` on overflow. -/
def checkedMul (a b : Word w) : Option (Word w) := ofNat? w (a.val * b.val)

theorem checkedAdd_eq_some {a b c : Word w} : checkedAdd a b = some c ↔ c.val = a.val + b.val :=
  ofNat?_eq_some

theorem checkedMul_eq_some {a b c : Word w} : checkedMul a b = some c ↔ c.val = a.val * b.val :=
  ofNat?_eq_some

/-! ## Saturating arithmetic and division -/

/-- Addition, stopping at the largest word. -/
def saturatingAdd (a b : Word w) : Word w := clamp w (a.val + b.val)

theorem val_saturatingAdd (a b : Word w) :
    (a.saturatingAdd b).val = min (a.val + b.val) (2 ^ w - 1) := by
  unfold saturatingAdd clamp max
  split <;> simp only <;> omega

/-- Subtraction, stopping at zero. -/
def saturatingSub (a b : Word w) : Word w :=
  ⟨a.val - b.val, Nat.lt_of_le_of_lt (Nat.sub_le _ _) a.isLt⟩

/-- Multiplication, stopping at the largest word. -/
def saturatingMul (a b : Word w) : Word w := clamp w (a.val * b.val)

/-- Division, rounding down. -/
def div (a b : Word w) : Word w := ⟨a.val / b.val, Nat.lt_of_le_of_lt (Nat.div_le_self _ _) a.isLt⟩

@[simp] theorem val_saturatingSub (a b : Word w) : (saturatingSub a b).val = a.val - b.val := rfl

@[simp] theorem val_div (a b : Word w) : (div a b).val = a.val / b.val := rfl

/-- Zero extension to a wider word. -/
def widen {v : ℕ} (h : w ≤ v) (a : Word w) : Word v :=
  ⟨a.val, Nat.lt_of_lt_of_le a.isLt (Nat.pow_le_pow_right Nat.two_pos h)⟩

end Word

/-- A 64-bit unsigned integer. -/
abbrev U64 := Word 64

instance : Std.TransOrd U64 := inferInstance

/-- A 128-bit unsigned integer. -/
abbrev U128 := Word 128

/-- A 64-bit integer as a 128-bit one. -/
def Word.toU128 (a : Word 64) : U128 := a.widen (by decide)

@[simp] theorem Word.val_toU128 (a : U64) : a.toU128.val = a.val := rfl

end Detta
