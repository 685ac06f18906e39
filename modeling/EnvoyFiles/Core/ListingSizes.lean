import EnvoyFiles.Core.Listing
import EnvoyFiles.Core.SingleRange
import EnvoyFiles.Support.Rounding

/-!
# Sizes in a listing

A size is shown in whole bytes or with one decimal of a binary unit, and it is rounded twice
on the way: to a float, and to the decimal.  Neither rounding changes the order in which two
sizes stand, whatever their units are, and below `2 ^ 53` only the second one loses anything.
-/

namespace EnvoyFiles.Listing

open Rounding Range

/-! ## Reading the text -/

/-- The units of `humanize_size` and the bytes in them. -/
def binaryUnits : List (String × ℕ) :=
  [("KiB", 1024), ("MiB", 1024 ^ 2), ("GiB", 1024 ^ 3), ("TiB", 1024 ^ 4)]

/-- The text denotes a number of tenths of a byte, which is a multiple of the step. -/
inductive Denotes : String → ℕ → ℕ → Prop where
  | bytes (size : ℕ) : Denotes s!"{size} B" (10 * size) 0
  | tenths {unit : String} {divisor : ℕ} (count : ℕ) : (unit, divisor) ∈ binaryUnits →
      Denotes s!"{count / 10}.{count % 10} {unit}" (count * divisor) divisor

section Reading

variable {text : String} {shown shown' resolution resolution' : ℕ}

theorem digits_free {n : ℕ} {c : Char} (h : isAsciiDigit c = false) : c ∉ (toString n).toList := by
  intro hc
  rw [(isDigits_toString n).2 c hc] at h
  cases h

theorem bytes_toList (size : ℕ) :
    (s!"{size} B").toList = (toString size).toList ++ ' ' :: ['B'] := by
  rw [String.toList_append]
  rfl

theorem tenths_toList (count : ℕ) (unit : String) :
    (s!"{count / 10}.{count % 10} {unit}").toList =
      (toString (count / 10)).toList ++ '.' :: ((toString (count % 10)).toList ++
        ' ' :: unit.toList) := by
  simp only [String.toList_append, List.append_assoc]
  rfl

theorem unit_chars : ∀ entry ∈ binaryUnits, '.' ∉ entry.1.toList ∧ ' ' ∉ entry.1.toList := by
  decide

theorem unit_divisor :
    ∀ entry ∈ binaryUnits, ∀ other ∈ binaryUnits, entry.1 = other.1 → entry.2 = other.2 := by
  decide

/-- Only a number of tenths is written with a point. -/
theorem bytes_ne_tenths (size count : ℕ) (unit : String) :
    s!"{size} B" ≠ s!"{count / 10}.{count % 10} {unit}" := by
  intro hsame
  have hchars := congrArg String.toList hsame
  rw [bytes_toList, tenths_toList] at hchars
  have hpoint : '.' ∈ (toString size).toList ++ ' ' :: ['B'] := by
    rw [hchars]
    exact List.mem_append_right _ List.mem_cons_self
  rcases List.mem_append.mp hpoint with hdigit | hunit
  · exact digits_free (by decide) hdigit
  · exact absurd hunit (by decide)

/-- The digits stand before separators that occur in none of them. -/
theorem tenths_inj {count other : ℕ} {unit name : String}
    (hunit : '.' ∉ unit.toList ∧ ' ' ∉ unit.toList)
    (h : s!"{count / 10}.{count % 10} {unit}" = s!"{other / 10}.{other % 10} {name}") :
    count = other ∧ unit = name := by
  have hchars := congrArg String.toList h
  rw [tenths_toList, tenths_toList] at hchars
  have hrest : '.' ∉ (toString (count % 10)).toList ++ ' ' :: unit.toList := by
    rw [List.mem_append, List.mem_cons, not_or, not_or]
    exact ⟨digits_free (by decide), by decide, hunit.1⟩
  obtain ⟨hwhole, -, htail⟩ :=
    (List.append_cons_inj_of_notMem (digits_free (by decide)) hrest).mp hchars
  obtain ⟨htenth, -, hname⟩ :=
    (List.append_cons_inj_of_notMem (digits_free (by decide)) hunit.2).mp htail
  have hdiv := toString_injective (String.toList_inj.mp hwhole)
  have hmod := toString_injective (String.toList_inj.mp htenth)
  exact ⟨by omega, String.toList_inj.mp hname⟩

/-- A text denotes one number. -/
theorem Denotes.unique (h : Denotes text shown resolution) (h' : Denotes text shown' resolution') :
    shown = shown' ∧ resolution = resolution' := by
  generalize hsame : text = text' at h'
  cases h with
  | bytes size =>
      cases h' with
      | bytes size' =>
          have hchars := congrArg String.toList hsame
          rw [bytes_toList, bytes_toList] at hchars
          obtain ⟨hdigits, -, -⟩ :=
            (List.append_cons_inj_of_notMem (digits_free (by decide)) (by decide)).mp hchars
          rw [toString_injective (String.toList_inj.mp hdigits)]
          exact ⟨rfl, rfl⟩
      | tenths count hunit => exact absurd hsame (bytes_ne_tenths size count _)
  | tenths count hunit =>
      cases h' with
      | bytes size => exact absurd hsame.symm (bytes_ne_tenths size count _)
      | tenths count' hunit' =>
          obtain ⟨rfl, hname⟩ := tenths_inj (unit_chars _ hunit) hsame
          have hdivisor : resolution = resolution' := unit_divisor _ hunit _ hunit' hname
          rw [hdivisor]
          exact ⟨rfl, rfl⟩

end Reading

/-! ## Rounding -/

section Rounded

variable {n m d : ℕ}

theorem divRoundEven_nearest (hd : 0 < d) : Nearest n d (divRoundEven n d) := by
  have hdiv := Nat.div_add_mod n d
  have hmod := Nat.mod_lt n hd
  rw [Nearest]
  rw [divRoundEven]
  split
  · omega
  · split
    · rw [Nat.mul_succ]
      omega
    · split
      · omega
      · rw [Nat.mul_succ]
        omega

theorem divRoundEven_mono (hd : 0 < d) (h : n ≤ m) : divRoundEven n d ≤ divRoundEven m d := by
  rcases Nat.lt_or_eq_of_le h with hlt | rfl
  · exact (divRoundEven_nearest hd).le_of_lt (divRoundEven_nearest hd) hlt
  · exact le_rfl

/-- The distance of the floats around `n`. -/
def ulp (n : ℕ) : ℕ :=
  2 ^ (Nat.log2 n - 52)

theorem ulp_pos (n : ℕ) : 0 < ulp n :=
  Nat.two_pow_pos _

/-- The powers of two around `n` are multiples of that distance. -/
theorem ulp_mul (n k : ℕ) : ulp n * 2 ^ (Nat.log2 n + k - (Nat.log2 n - 52)) =
    2 ^ (Nat.log2 n + k) := by
  rw [ulp]
  rw [← pow_add]
  congr 1
  omega

theorem asF64_eq (n : ℕ) : asF64 n = ulp n * divRoundEven n (ulp n) :=
  Nat.mul_comm _ _

/-- A float does not leave the powers of two around the number. -/
theorem asF64_le (n : ℕ) : asF64 n ≤ 2 ^ (Nat.log2 n + 1) := by
  have hlt : n ≤ ulp n * 2 ^ (Nat.log2 n + 1 - (Nat.log2 n - 52)) := by
    rw [ulp_mul]
    exact Nat.lt_log2_self.le
  rw [asF64_eq, ← ulp_mul]
  exact Nat.mul_le_mul_left _ ((divRoundEven_nearest (ulp_pos n)).le_of_le (ulp_pos n) hlt)

theorem le_asF64 (hn : n ≠ 0) : 2 ^ Nat.log2 n ≤ asF64 n := by
  have hle : ulp n * 2 ^ (Nat.log2 n + 0 - (Nat.log2 n - 52)) ≤ n := by
    rw [ulp_mul]
    exact Nat.log2_self_le hn
  calc 2 ^ Nat.log2 n
      = ulp n * 2 ^ (Nat.log2 n + 0 - (Nat.log2 n - 52)) := (ulp_mul n 0).symm
    _ ≤ ulp n * divRoundEven n (ulp n) :=
        Nat.mul_le_mul_left _ ((divRoundEven_nearest (ulp_pos n)).ge_of_ge (ulp_pos n) hle)
    _ = asF64 n := (asF64_eq n).symm

/-- The conversion to a float keeps the order. -/
theorem asF64_mono (h : n ≤ m) : asF64 n ≤ asF64 m := by
  rcases Nat.eq_zero_or_pos n with rfl | hn
  · exact Nat.zero_le _
  have hm : m ≠ 0 := by omega
  have hlog : Nat.log2 n ≤ Nat.log2 m :=
    (Nat.le_log2 hm).mpr ((Nat.log2_self_le hn.ne').trans h)
  rcases Nat.lt_or_eq_of_le hlog with hlt | hsame
  · calc asF64 n
        ≤ 2 ^ (Nat.log2 n + 1) := asF64_le n
      _ ≤ 2 ^ Nat.log2 m := Nat.pow_le_pow_right (by decide) hlt
      _ ≤ asF64 m := le_asF64 hm
  · have hulp : ulp n = ulp m := by
      rw [ulp, ulp, hsame]
    rw [asF64_eq, asF64_eq, hulp]
    exact Nat.mul_le_mul_left _ (divRoundEven_mono (ulp_pos m) h)

/-- Below `2 ^ 53` every number is a float. -/
theorem asF64_exact (h : n < 2 ^ 53) : asF64 n = n := by
  have hulp : ulp n = 1 := by
    rcases Nat.eq_zero_or_pos n with rfl | hn
    · rfl
    · have hlog := (Nat.log2_lt hn.ne').mpr h
      rw [ulp]
      rw [Nat.sub_eq_zero_of_le (by omega), pow_zero]
  have hnearest := @divRoundEven_nearest n 1 Nat.one_pos
  rw [asF64_eq, hulp, Nat.one_mul]
  exact Nearest.eq_of_eq (by rwa [Nat.one_mul]) Nat.one_pos

/-- Where the unit loop ends: with a unit that the size reaches, and that it does not exceed
by more than the next one, if there is a next one. -/
theorem unitFor_spec {units : List String} (hunits : units ≠ []) (size divisor : ℕ) :
    ∃ i unit, units[i]? = some unit ∧ unitFor size divisor units = (divisor * 1024 ^ i, unit) ∧
      (divisor ≤ size → divisor * 1024 ^ i ≤ size) ∧
      (i + 1 < units.length → size < 1024 * (divisor * 1024 ^ i)) := by
  induction units generalizing divisor with
  | nil => exact absurd rfl hunits
  | cons unit rest ih =>
      cases rest with
      | nil => exact ⟨0, unit, rfl, by simp [unitFor], by simp, by simp⟩
      | cons next rest =>
          rw [unitFor]
          · split
            · next hreached =>
                obtain ⟨i, found, hfound, hunit, hle, hlt⟩ := ih (List.cons_ne_nil _ _)
                  (1024 * divisor)
                have hpow : 1024 * divisor * 1024 ^ i = divisor * 1024 ^ (i + 1) := by ring
                rw [hpow] at hunit hle hlt
                exact ⟨i + 1, found, hfound, hunit, fun _ => hle hreached,
                  fun hi => hlt (Nat.lt_of_succ_lt_succ hi)⟩
            · next hbelow =>
                refine ⟨0, unit, rfl, by simp, by simp, fun _ => ?_⟩
                omega
          · simp

end Rounded

/-! ## The sizes shown -/

/-- What is shown for a size: the size, or the tenths of the unit nearest to its float. -/
inductive Shows (size : ℕ) : ℕ → ℕ → Prop where
  | bytes : size < 1024 → Shows size (10 * size) 0
  | tenths {i divisor : ℕ} : 1024 ≤ size → i < 4 → divisor = 1024 ^ (i + 1) →
      divisor ≤ asF64 size →
      (i < 3 → asF64 size < 1024 * divisor) →
      Shows size (divRoundEven (10 * asF64 size) divisor * divisor) divisor

section Shown

variable {a b size shown shown' resolution resolution' : ℕ}

theorem humanizeSize_denotes (size : ℕ) :
    ∃ shown resolution, Denotes (humanizeSize size) shown resolution ∧
      Shows size shown resolution := by
  unfold humanizeSize
  split
  · next hsmall => exact ⟨_, _, .bytes size, .bytes hsmall⟩
  · next hlarge =>
      have hsize : 1024 ≤ size := not_lt.mp hlarge
      have hrounded : 1024 ≤ asF64 size := by
        rw [← @asF64_exact 1024 (by decide)]
        exact asF64_mono hsize
      obtain ⟨i, unit, hunit, hfound, hle, hlt⟩ :=
        unitFor_spec (List.cons_ne_nil "KiB" ["MiB", "GiB", "TiB"]) (asF64 size) 1024
      have hpow : 1024 * 1024 ^ i = 1024 ^ (i + 1) := (pow_succ' 1024 i).symm
      rw [hpow] at hfound hle hlt
      dsimp only
      rw [hfound]
      have hi : i < ["KiB", "MiB", "GiB", "TiB"].length := (List.getElem?_eq_some_iff.mp hunit).1
      refine ⟨_, _, .tenths _ ?_, .tenths hsize hi rfl (hle hrounded) fun hi => hlt ?_⟩
      · rcases i with _ | _ | _ | _ | i
        · cases hunit
          decide
        · cases hunit
          decide
        · cases hunit
          decide
        · cases hunit
          decide
        · cases hunit
      · exact Nat.succ_lt_succ hi

/-- In its unit a size is shown as one at least, -/
theorem Shows.le_shown {i divisor : ℕ} (hdivisor : divisor = 1024 ^ (i + 1))
    (hle : divisor ≤ asF64 size) :
    10 * divisor ≤ divRoundEven (10 * asF64 size) divisor * divisor := by
  have hpos : 0 < divisor := by
    rw [hdivisor]
    exact Nat.pow_pos (by decide)
  have hten : 10 ≤ divRoundEven (10 * asF64 size) divisor :=
    (divRoundEven_nearest hpos).ge_of_ge hpos (by omega)
  exact Nat.mul_le_mul_right divisor hten

/-- and as 1024 at most, where there is a next unit. -/
theorem Shows.shown_le {i divisor : ℕ} (hdivisor : divisor = 1024 ^ (i + 1))
    (hlt : asF64 size < 1024 * divisor) :
    divRoundEven (10 * asF64 size) divisor * divisor ≤ 10 * (1024 * divisor) := by
  have hpos : 0 < divisor := by
    rw [hdivisor]
    exact Nat.pow_pos (by decide)
  have htop : divRoundEven (10 * asF64 size) divisor ≤ 10240 :=
    (divRoundEven_nearest hpos).le_of_le hpos (by omega)
  calc divRoundEven (10 * asF64 size) divisor * divisor
      ≤ 10240 * divisor := Nat.mul_le_mul_right divisor htop
    _ = 10 * (1024 * divisor) := by ring

/-- What is shown keeps the order of the sizes: in one unit the roundings do, and the sizes
of a unit are shown between its bounds. -/
theorem Shows.mono (h : Shows a shown resolution) (h' : Shows b shown' resolution') (hab : a ≤ b) :
    shown ≤ shown' := by
  cases h with
  | bytes ha =>
      cases h' with
      | bytes _ => exact Nat.mul_le_mul_left 10 hab
      | @tenths j _ _ _ hdivisor hle _ =>
          have hunit : 1024 ≤ resolution' := by
            rw [hdivisor]
            exact Nat.le_self_pow (Nat.succ_ne_zero j) 1024
          have hshown := Shows.le_shown hdivisor hle
          omega
  | @tenths i _ ha hi hdivisor hle hlt =>
      cases h' with
      | bytes hb => omega
      | @tenths j _ _ hj hdivisor' hle' hlt' =>
          have hrounded := asF64_mono hab
          have hstep (k : ℕ) : 1024 * 1024 ^ (k + 1) = 1024 ^ (k + 1 + 1) :=
            (pow_succ' 1024 (k + 1)).symm
          rcases Nat.lt_trichotomy i j with hij | rfl | hji
          · calc _ ≤ 10 * (1024 * resolution) := Shows.shown_le hdivisor (hlt (by omega))
              _ ≤ 10 * resolution' := by
                  rw [hdivisor, hstep, hdivisor']
                  exact Nat.mul_le_mul_left 10 (Nat.pow_le_pow_right (by decide) (by omega))
              _ ≤ _ := Shows.le_shown hdivisor' hle'
          · rw [← hdivisor'] at hdivisor
            subst hdivisor
            have hpos : 0 < resolution := by
              rw [hdivisor']
              exact Nat.pow_pos (by decide)
            exact Nat.mul_le_mul_right resolution
              (divRoundEven_mono hpos (Nat.mul_le_mul_left 10 hrounded))
          · have hnext : 1024 * resolution' ≤ resolution := by
              rw [hdivisor', hstep, hdivisor]
              exact Nat.pow_le_pow_right (by decide) (by omega)
            have hbelow := hlt' (by omega)
            omega

/-- Below `2 ^ 53` it is off by no more than half of its last decimal. -/
theorem Shows.error (h : Shows size shown resolution) (hsize : size < 2 ^ 53) :
    2 * (10 * size) ≤ 2 * shown + resolution ∧ 2 * shown ≤ 2 * (10 * size) + resolution := by
  cases h with
  | bytes _ => omega
  | @tenths i _ _ _ hdivisor _ _ =>
      have hpos : 0 < resolution := by
        rw [hdivisor]
        exact Nat.pow_pos (by decide)
      have hnearest := @divRoundEven_nearest (10 * asF64 size) resolution hpos
      rw [Nearest, Nat.mul_comm resolution, asF64_exact hsize] at hnearest
      rw [asF64_exact hsize]
      exact hnearest

/-- The sizes of a listing are in order: whatever two texts in its size column denote, the
larger size does not denote less, and up to the precision of a float a text denotes its size
up to half of its last decimal. -/
theorem sizes_listed_in_order :
    (∀ size, ∃ shown resolution, Denotes (humanizeSize size) shown resolution) ∧
      (∀ a b shown shown' resolution resolution', a ≤ b →
        Denotes (humanizeSize a) shown resolution →
        Denotes (humanizeSize b) shown' resolution' → shown ≤ shown') ∧
      ∀ size shown resolution, size < 2 ^ 53 → Denotes (humanizeSize size) shown resolution →
        2 * (10 * size) ≤ 2 * shown + resolution ∧ 2 * shown ≤ 2 * (10 * size) + resolution := by
  have hshows : ∀ size shown resolution, Denotes (humanizeSize size) shown resolution →
      Shows size shown resolution := by
    intro size shown resolution hdenotes
    obtain ⟨shown', resolution', hdenotes', hshows⟩ := humanizeSize_denotes size
    obtain ⟨rfl, rfl⟩ := hdenotes.unique hdenotes'
    exact hshows
  refine ⟨?_, ?_, ?_⟩
  · intro size
    obtain ⟨shown, resolution, hdenotes, -⟩ := humanizeSize_denotes size
    exact ⟨shown, resolution, hdenotes⟩
  · intro a b shown shown' resolution resolution' hab ha hb
    exact (hshows _ _ _ ha).mono (hshows _ _ _ hb) hab
  · intro size shown resolution hsize hdenotes
    exact (hshows _ _ _ hdenotes).error hsize

end Shown

/-- A size is shown in the larger unit from where its tenths reach it. -/
theorem sizes_listed_in_order_kibibytes :
    humanizeSize 1048575 = "1024.0 KiB" ∧ humanizeSize 1048576 = "1.0 MiB" ∧
      10240 * 1024 ≤ 10 * 1024 ^ 2 := by
  have hbelow : Denotes (humanizeSize 1048575) (10240 * 1024) 1024 :=
    .tenths 10240 (by decide : ("KiB", 1024) ∈ binaryUnits)
  have hunit : Denotes (humanizeSize 1048576) (10 * 1024 ^ 2) (1024 ^ 2) :=
    .tenths 10 (by decide : ("MiB", 1024 ^ 2) ∈ binaryUnits)
  exact ⟨by decide, by decide, sizes_listed_in_order.2.1 1048575 1048576 _ _ _ _ (by decide)
    hbelow hunit⟩

end EnvoyFiles.Listing
