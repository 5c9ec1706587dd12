import Mathlib.Data.List.TakeWhile
import Mathlib.Data.Nat.Digits.Lemmas

/-!
# Base58 — byte strings as text over 58 characters

The digits of a number in one base are turned into its digits in another; zeros at the front stand
for themselves.  Turning them back gives the same digits (`rebase_rebase`), so base58 text and byte
strings correspond one to one.
-/

namespace Base58

/-! ## Changing the base -/

/-- The digits of the same number in base `c`, most significant first, behind the same zeros. -/
def rebase (b c : ℕ) (l : List ℕ) : List ℕ :=
  l.takeWhile (· = 0) ++ (Nat.digits c (Nat.ofDigits b l.reverse)).reverse

theorem takeWhile_eq_replicate (l : List ℕ) :
    l.takeWhile (· = 0) = List.replicate (l.takeWhile (· = 0)).length 0 := by
  refine List.eq_replicate_iff.2 ⟨rfl, ?_⟩
  intro d hd
  simpa using List.mem_takeWhile_imp hd

/-- Zeros at the front do not change the value. -/
theorem ofDigits_reverse (b : ℕ) (l : List ℕ) :
    Nat.ofDigits b l.reverse = Nat.ofDigits b (l.dropWhile (· = 0)).reverse := by
  conv_lhs => rw [← List.takeWhile_append_dropWhile (p := (· = 0)) (l := l), List.reverse_append,
    takeWhile_eq_replicate, List.reverse_replicate, Nat.ofDigits_append_replicate_zero]

/-- The digits of a number do not start with a zero. -/
theorem takeWhile_digits (c n : ℕ) : (Nat.digits c n).reverse.takeWhile (· = 0) = [] := by
  cases hdigits : (Nat.digits c n).reverse with
  | nil => rfl
  | cons d ds =>
      have hn : n ≠ 0 := by
        rintro rfl
        simp at hdigits
      have hlast := Nat.getLast_digit_ne_zero c hn
      have hd : (Nat.digits c n).getLast (Nat.digits_ne_nil_iff_ne_zero.2 hn) = d := by
        rw [List.getLast_eq_head_reverse]
        simp [hdigits]
      rw [hd] at hlast
      simp [hlast]

theorem takeWhile_rebase (b c : ℕ) (l : List ℕ) :
    (rebase b c l).takeWhile (· = 0) = l.takeWhile (· = 0) := by
  have hzeros : ∀ d ∈ l.takeWhile (· = 0), decide (d = 0) = true := by
    intro d hd
    simpa using List.mem_takeWhile_imp hd
  rw [rebase, List.takeWhile_append_of_pos hzeros, takeWhile_digits, List.append_nil]

theorem ofDigits_rebase (b c : ℕ) (l : List ℕ) :
    Nat.ofDigits c (rebase b c l).reverse = Nat.ofDigits b l.reverse := by
  rw [rebase, List.reverse_append, List.reverse_reverse, takeWhile_eq_replicate,
    List.reverse_replicate, Nat.ofDigits_append_replicate_zero, Nat.ofDigits_digits]

/-- Changing the base back gives the same digits. -/
theorem rebase_rebase {b c : ℕ} (hb : 1 < b) {l : List ℕ} (hl : ∀ d ∈ l, d < b) :
    rebase c b (rebase b c l) = l := by
  have hlast : ∀ h : (l.dropWhile (· = 0)).reverse ≠ [],
      (l.dropWhile (· = 0)).reverse.getLast h ≠ 0 := by
    intro h
    rw [List.getLast_reverse]
    have hne : l.dropWhile (· = 0) ≠ [] := by simpa using h
    exact of_decide_eq_false (List.head_dropWhile_not (· = 0) hne)
  have hdigits : Nat.digits b (Nat.ofDigits b (l.dropWhile (· = 0)).reverse) =
      (l.dropWhile (· = 0)).reverse := by
    refine Nat.digits_ofDigits b hb _ ?_ hlast
    intro d hd
    exact hl d ((List.dropWhile_sublist _).subset (List.mem_reverse.1 hd))
  calc rebase c b (rebase b c l)
      = l.takeWhile (· = 0) ++
          (Nat.digits b (Nat.ofDigits b (l.dropWhile (· = 0)).reverse)).reverse := by
        rw [rebase, takeWhile_rebase, ofDigits_rebase, ofDigits_reverse b l]
    _ = l := by
        rw [hdigits, List.reverse_reverse, List.takeWhile_append_dropWhile]

theorem rebase_lt {b c : ℕ} (hc : 1 < c) {l : List ℕ} : ∀ d ∈ rebase b c l, d < c := by
  intro d hd
  rcases List.mem_append.1 hd with hd | hd
  · have hzero : d = 0 := by simpa using List.mem_takeWhile_imp hd
    omega
  · exact Nat.digits_lt_base hc (List.mem_reverse.1 hd)

/-! ## The alphabet -/

def alphabet : List Char :=
  "123456789ABCDEFGHJKLMNPQRSTUVWXYZabcdefghijkmnopqrstuvwxyz".toList

def charOf (d : ℕ) : Char :=
  alphabet.getD d '1'

def digitOf (c : Char) : Option ℕ :=
  alphabet.idxOf? c

theorem digitOf_charOf {d : ℕ} (h : d < 58) : digitOf (charOf d) = some d := by
  have hall : ∀ d < 58, digitOf (charOf d) = some d := by
    decide +kernel
  exact hall d h

theorem charOf_of_digitOf {c : Char} {d : ℕ} (h : digitOf c = some d) : d < 58 ∧ charOf d = c := by
  rw [digitOf, List.idxOf?_eq_some_iff] at h
  rcases h with ⟨hlt, hget, -⟩
  exact ⟨hlt, by simpa [charOf, hlt] using hget⟩

theorem mapM_digitOf {ds : List ℕ} (h : ∀ d ∈ ds, d < 58) :
    (ds.map charOf).mapM digitOf = some ds := by
  induction ds with
  | nil => rfl
  | cons d ds ih =>
      have htail := ih fun d hd => h d (List.mem_cons_of_mem _ hd)
      simp [digitOf_charOf (h d List.mem_cons_self), htail]

theorem mapM_digitOf_eq_some : ∀ {cs : List Char} {ds : List ℕ}, cs.mapM digitOf = some ds →
    (∀ d ∈ ds, d < 58) ∧ ds.map charOf = cs
  | [], ds, h => by
      have hnil : ds = [] := by simpa [eq_comm] using h
      simp [hnil]
  | c :: cs, ds, h => by
      rw [List.mapM_cons] at h
      cases hc : digitOf c with
      | none => simp [hc] at h
      | some d =>
          cases hcs : cs.mapM digitOf with
          | none => simp [hc, hcs] at h
          | some ds' =>
              have hds : d :: ds' = ds := by simpa [hc, hcs] using h
              rcases charOf_of_digitOf hc with ⟨hlt, hchar⟩
              rcases mapM_digitOf_eq_some hcs with ⟨hall, hmap⟩
              subst hds
              exact ⟨by simpa using ⟨hlt, hall⟩, by simp [hchar, hmap]⟩

/-! ## Encoding -/

def encode (bytes : List UInt8) : String :=
  String.ofList ((rebase 256 58 (bytes.map UInt8.toNat)).map charOf)

def decode (s : String) : Option (List UInt8) :=
  (s.toList.mapM digitOf).map fun ds => (rebase 58 256 ds).map UInt8.ofNat

theorem map_ofNat_toNat (bytes : List UInt8) :
    (bytes.map UInt8.toNat).map UInt8.ofNat = bytes := by
  simp [Function.comp_def]

theorem map_toNat_ofNat {ds : List ℕ} (h : ∀ d ∈ ds, d < 256) :
    (ds.map UInt8.ofNat).map UInt8.toNat = ds := by
  rw [List.map_map]
  calc ds.map (UInt8.toNat ∘ UInt8.ofNat)
      = ds.map id := List.map_congr_left fun d hd => UInt8.toNat_ofNat_of_lt' (h d hd)
    _ = ds := List.map_id ds

theorem decode_encode (bytes : List UInt8) : decode (encode bytes) = some bytes := by
  have hbytes : ∀ d ∈ bytes.map UInt8.toNat, d < 256 := by
    intro d hd
    rcases List.mem_map.1 hd with ⟨x, -, rfl⟩
    exact x.toNat_lt
  have hdigits := mapM_digitOf (rebase_lt (b := 256) (l := bytes.map UInt8.toNat)
    (show 1 < 58 by decide))
  simp only [decode, encode, String.toList_ofList, hdigits, Option.map_some,
    rebase_rebase (show 1 < 256 by decide) hbytes, map_ofNat_toNat]

theorem encode_decode {s : String} {bytes : List UInt8} (h : decode s = some bytes) :
    encode bytes = s := by
  rw [decode, Option.map_eq_some_iff] at h
  rcases h with ⟨ds, hds, rfl⟩
  rcases mapM_digitOf_eq_some hds with ⟨hlt, hchars⟩
  rw [encode, map_toNat_ofNat (rebase_lt (show 1 < 256 by decide)),
    rebase_rebase (show 1 < 58 by decide) hlt, hchars, String.ofList_toList]

end Base58
