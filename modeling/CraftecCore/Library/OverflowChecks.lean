import CraftecCore.Library.Outcome

/-!
# OverflowChecks — one program, two builds

Whether an addition that does not fit panics or wraps is a setting of the build.  Functions that
take the setting as an argument are compared with the checked program: wherever the checked program
returns, every build returns the same value.
-/

inductive OverflowChecks
  | on
  | off
  deriving DecidableEq, Repr

/-- `a + b` on `u64`: where it does not fit, a panic or the wrapped sum. -/
def UInt64.addIn (checks : OverflowChecks) (a b : UInt64) : Outcome UInt64 :=
  match checks with
  | .on => a.checkedAdd b
  | .off => .ok (a + b)

def sumU64In (checks : OverflowChecks) (words : List UInt64) : Outcome UInt64 :=
  words.foldlM (UInt64.addIn checks) 0

@[simp]
theorem UInt64.addIn_on (a b : UInt64) : a.addIn .on b = a.checkedAdd b := rfl

@[simp]
theorem sumU64In_on (words : List UInt64) : sumU64In .on words = sumU64 words := rfl

namespace Outcome

variable {α β : Type}

/-- Wherever the first run returns, the second returns the same value. -/
def ReturnsAs (x y : Outcome α) : Prop :=
  ∀ v, x = ok v → y = ok v

theorem ReturnsAs.refl (x : Outcome α) : ReturnsAs x x := fun _ h => h

theorem ReturnsAs.bind {x y : Outcome α} {f g : α → Outcome β} (h : ReturnsAs x y)
    (hs : ∀ a, ReturnsAs (f a) (g a)) : ReturnsAs (x >>= f) (y >>= g) := by
  intro v hv
  rcases bind_eq_ok.1 hv with ⟨a, hx, hf⟩
  exact bind_eq_ok.2 ⟨a, h a hx, hs a v hf⟩

theorem ReturnsAs.foldlM {f g : β → α → Outcome β} (h : ∀ b a, ReturnsAs (f b a) (g b a)) :
    ∀ (l : List α) (b : β), ReturnsAs (l.foldlM f b) (l.foldlM g b)
  | [], b => ReturnsAs.refl _
  | a :: l, b => by
      rw [List.foldlM_cons, List.foldlM_cons]
      exact ReturnsAs.bind (h b a) (ReturnsAs.foldlM h l)

end Outcome

open Outcome

/-- A sum that fits is the same in every build. -/
theorem UInt64.returnsAs_addIn (checks : OverflowChecks) (a b : UInt64) :
    ReturnsAs (a.checkedAdd b) (a.addIn checks b) := by
  cases checks with
  | on => exact ReturnsAs.refl _
  | off =>
      intro c hc
      have hsum := UInt64.checkedAdd_eq_ok.1 hc
      have hlt := c.toNat_lt
      have hmod : (a.toNat + b.toNat) % 2 ^ 64 = c.toNat := by omega
      have heq : a + b = c := by rw [← UInt64.toNat_inj, UInt64.toNat_add, hmod]
      exact congrArg ok heq

theorem returnsAs_sumU64In (checks : OverflowChecks) (words : List UInt64) :
    ReturnsAs (sumU64 words) (sumU64In checks words) :=
  ReturnsAs.foldlM (UInt64.returnsAs_addIn checks) words 0
