import EnvoyFiles.Support.Text

/-!
# Facts about strings and their bytes

Decoding inverts encoding, and splitting at a separator inverts joining pieces
that do not contain it.
-/

namespace EnvoyFiles.Text

/-- What holds of 256 numbers holds of all bytes. -/
theorem forall_byte {P : UInt8 → Prop} (h : ∀ n < 256, P (UInt8.ofNat n)) (b : UInt8) : P b := by
  have hb := h b.toNat b.toNat_lt
  rwa [UInt8.ofNat_toNat] at hb

/-- The bytes of a string are its encoding. -/
theorem asBytes_eq (s : String) : asBytes s = s.toByteArray.data.toList := by
  rw [← String.utf8Encode_toList]
  rw [asBytes, List.utf8Encode]
  rw [List.data_toByteArray, List.toList_toArray]

theorem asBytes_injective {s t : String} (h : asBytes s = asBytes t) : s = t := by
  rw [asBytes_eq, asBytes_eq, Array.toList_inj] at h
  exact String.toByteArray_inj.mp (ByteArray.ext h)

@[simp] theorem asBytes_eq_nil {s : String} : asBytes s = [] ↔ s = "" := by
  constructor
  · intro h
    exact asBytes_injective (t := "") h
  · rintro rfl
    rfl

/-- `from_utf8` reads exactly the encodings of strings. -/
theorem fromUtf8_eq_some {bytes : Bytes} {s : String} :
    fromUtf8 bytes = some s ↔ asBytes s = bytes := by
  unfold fromUtf8 String.fromUTF8?
  split
  · next hvalid =>
      rw [Option.some.injEq, asBytes_eq]
      constructor
      · rintro rfl
        rfl
      · rintro rfl
        exact String.toByteArray_inj.mp rfl
  · next hvalid =>
      constructor
      · nofun
      · rintro rfl
        refine absurd ?_ hvalid
        rw [asBytes_eq]
        exact s.isValidUTF8

/-- A byte below `0x80` in the encoding of a character is that character. -/
theorem mem_utf8EncodeChar {b : UInt8} {c : Char} (hb : b.toNat < 0x80) :
    b ∈ String.utf8EncodeChar c ↔ c.toNat = b.toNat := by
  have hmultibyte : ∀ n base : ℕ, n + base < 256 → 0x80 ≤ base →
      b ≠ UInt8.ofNat (n + base) := by
    rintro n base hfits hbase rfl
    rw [UInt8.toNat_ofNat', Nat.mod_eq_of_lt hfits] at hb
    omega
  unfold String.utf8EncodeChar
  dsimp only
  constructor
  · intro h
    split at h
    · next hascii =>
        rw [List.mem_singleton.mp h, UInt8.toNat_ofNat', Nat.mod_eq_of_lt (by omega)]
        rfl
    · exfalso
      simp only [apply_ite (b ∈ ·), List.mem_cons, List.not_mem_nil, or_false] at h
      split at h
      · rcases h with h | h <;> exact hmultibyte _ _ (by omega) (by omega) h
      · split at h
        · rcases h with h | h | h <;> exact hmultibyte _ _ (by omega) (by omega) h
        · rcases h with h | h | h | h <;> exact hmultibyte _ _ (by omega) (by omega) h
  · intro h
    have hval : c.val.toNat = b.toNat := h
    rw [if_pos (by omega), hval, UInt8.ofNat_toNat]
    exact List.mem_singleton_self b

/-- The bytes below `0x80` of a string are its ASCII characters. -/
theorem mem_asBytes {b : UInt8} {s : String} (hb : b.toNat < 0x80) :
    b ∈ asBytes s ↔ ∃ c ∈ s.toList, c.toNat = b.toNat := by
  rw [asBytes]
  rw [List.mem_flatMap]
  simp only [mem_utf8EncodeChar hb]

theorem asBytes_append (s t : String) : asBytes (s ++ t) = asBytes s ++ asBytes t := by
  simp only [asBytes]
  rw [String.toList_append, List.flatMap_append]

/-! ## Lossy decoding -/

/-- A sequence of three or four bytes is present when its second byte may stand behind its
first and the others continue it. -/
theorem presentTail_eq {lead second third : UInt8} {tail more : Bytes}
    (hsecond : isSecondByte lead second = true)
    (htail : ∀ b ∈ third :: tail, isContinuation b = true) :
    presentTail lead (tail.length + 2) (second :: third :: tail ++ more) = tail.length + 2 := by
  have htake : ((third :: (tail ++ more)).take (tail.length + 1)).takeWhile isContinuation =
      third :: tail := by
    have htail' : (third :: (tail ++ more)).take (tail.length + 1) = third :: tail :=
      @List.take_left _ (third :: tail) more
    rw [htail', ← List.append_nil (third :: tail), List.takeWhile_append_of_pos htail]
    rfl
  have hpresent : presentTail lead (tail.length + 2) (second :: third :: tail ++ more) =
      1 + (((third :: (tail ++ more)).take (tail.length + 1)).takeWhile isContinuation).length :=
    if_pos hsecond
  rw [hpresent, htake, List.length_cons]
  omega

/-- The encoding of a character is a lead byte that asks for the bytes behind it, which may
stand there. -/
theorem utf8EncodeChar_sequence (c : Char) : ∃ lead tail,
    String.utf8EncodeChar c = lead :: tail ∧ sequenceTail lead = some tail.length ∧
      ∀ rest, presentTail lead tail.length (tail ++ rest) = tail.length := by
  have hcontinuation : ∀ n < 64, isContinuation (UInt8.ofNat (n + 0x80)) = true := by decide
  have hvalid : c.val.toNat < 0xD800 ∨ 0xDFFF < c.val.toNat ∧ c.val.toNat < 0x110000 := c.valid
  unfold String.utf8EncodeChar
  dsimp only
  generalize c.val.toNat = n at hvalid
  by_cases hone : n ≤ 0x7F
  · rw [if_pos hone]
    have hlead : ∀ n < 0x80, sequenceTail (UInt8.ofNat n) = some 0 := by decide
    refine ⟨_, [], rfl, hlead n (by omega), ?_⟩
    intro rest
    rfl
  rw [if_neg hone]
  by_cases htwo : n ≤ 0x7FF
  · rw [if_pos htwo]
    have hlead : ∀ n < 32, 2 ≤ n → sequenceTail (UInt8.ofNat (n + 0xC0)) = some 1 := by decide
    refine ⟨_, _, rfl, hlead _ (by omega) (by omega), ?_⟩
    intro rest
    exact if_pos (hcontinuation _ (by omega))
  rw [if_neg htwo]
  by_cases hthree : n ≤ 0xFFFF
  · rw [if_pos hthree]
    have hlead : ∀ n < 16, sequenceTail (UInt8.ofNat (n + 0xE0)) = some 2 := by decide
    have hsecond : ∀ n < 16, ∀ m < 64, (n = 0 → 32 ≤ m) → (n = 13 → m < 32) →
        isSecondByte (UInt8.ofNat (n + 0xE0)) (UInt8.ofNat (m + 0x80)) = true := by
      decide
    refine ⟨_, _, rfl, hlead _ (by omega), ?_⟩
    intro rest
    apply presentTail_eq (hsecond _ (by omega) _ (by omega) (by omega) (by omega))
    rw [List.forall_mem_singleton]
    exact hcontinuation _ (by omega)
  · rw [if_neg hthree]
    have hlead : ∀ n < 5, sequenceTail (UInt8.ofNat (n + 0xF0)) = some 3 := by decide
    have hsecond : ∀ n < 5, ∀ m < 64, (n = 0 → 16 ≤ m) → (n = 4 → m < 16) →
        isSecondByte (UInt8.ofNat (n + 0xF0)) (UInt8.ofNat (m + 0x80)) = true := by
      decide
    refine ⟨_, _, rfl, hlead _ (by omega), ?_⟩
    intro rest
    apply presentTail_eq (hsecond _ (by omega) _ (by omega) (by omega) (by omega))
    rw [List.forall_mem_cons, List.forall_mem_singleton]
    exact ⟨hcontinuation _ (by omega), hcontinuation _ (by omega)⟩

/-- A whole encoded character is decoded to itself. -/
theorem lossyChars_encode (fuel : ℕ) (c : Char) (rest : Bytes) :
    lossyChars (fuel + 1) (String.utf8EncodeChar c ++ rest) = c :: lossyChars fuel rest := by
  obtain ⟨lead, tail, hencode, hlead, hpresent⟩ := utf8EncodeChar_sequence c
  have hdecode : fromUtf8 (lead :: tail) = some (String.singleton c) := by
    rw [fromUtf8_eq_some, ← hencode]
    simp [asBytes]
  rw [hencode, List.cons_append, lossyChars, hlead]
  dsimp only
  rw [hpresent, if_pos rfl, List.take_left, List.drop_left, hdecode,
    Option.getD_some, String.toList_singleton]
  rfl

theorem lossyChars_flatMap (chars : List Char) {fuel : ℕ} (hfuel : chars.length ≤ fuel) :
    lossyChars fuel (chars.flatMap String.utf8EncodeChar) = chars := by
  induction chars generalizing fuel with
  | nil =>
      unfold lossyChars
      cases fuel <;> rfl
  | cons c chars ih =>
      rw [List.length_cons] at hfuel
      obtain ⟨fuel, rfl⟩ : ∃ n, fuel = n + 1 := ⟨fuel - 1, by omega⟩
      rw [List.flatMap_cons, lossyChars_encode, ih (by omega)]

theorem length_le_encode (chars : List Char) :
    chars.length ≤ (chars.flatMap String.utf8EncodeChar).length := by
  induction chars with
  | nil => exact Nat.le_refl 0
  | cons c chars ih =>
      obtain ⟨lead, tail, hencode, -⟩ := utf8EncodeChar_sequence c
      rw [List.flatMap_cons, hencode, List.length_append, List.length_cons, List.length_cons]
      omega

/-- Decoding with replacements keeps what is well formed. -/
theorem fromUtf8Lossy_asBytes (s : String) : fromUtf8Lossy (asBytes s) = s := by
  rw [fromUtf8Lossy, asBytes]
  rw [lossyChars_flatMap s.toList (length_le_encode s.toList), String.ofList_toList]

/-! ## Digits -/

section Digits

variable {base n m : ℕ}

theorem mem_toDigits (hbase : 1 < base) {c : Char} (h : c ∈ Nat.toDigits base n) :
    ∃ d < base, c = Nat.digitChar d := by
  induction n using Nat.strongRecOn with
  | ind n ih =>
      rw [Nat.toDigits_eq_if hbase] at h
      split at h
      · next hlt => exact ⟨n, hlt, List.mem_singleton.mp h⟩
      · next hge =>
          rcases List.mem_append.mp h with h | h
          · apply ih (n / base) ?_ h
            exact Nat.div_lt_self (by omega) hbase
          · exact ⟨n % base, Nat.mod_lt n (by omega), List.mem_singleton.mp h⟩

/-- The digits of a number in a base up to sixteen determine it. -/
theorem toDigits_injective (hlow : 1 < base) (hhigh : base ≤ 16)
    (h : Nat.toDigits base n = Nat.toDigits base m) : n = m := by
  have hdigit : ∀ d < base, ∀ d' < base, Nat.digitChar d = Nat.digitChar d' → d = d' := by
    have hsixteen : ∀ d < 16, ∀ d' < 16, Nat.digitChar d = Nat.digitChar d' → d = d' := by
      decide
    intro d hd d' hd'
    exact hsixteen d (by omega) d' (by omega)
  have hlast : ∀ k, k % base < base := fun k => Nat.mod_lt k (by omega)
  induction n using Nat.strongRecOn generalizing m with
  | ind n ih =>
      -- One digit on both sides, on one side only, or several on both.
      by_cases hn : n < base
      · rw [Nat.toDigits_of_lt_base hn] at h
        by_cases hm : m < base
        · rw [Nat.toDigits_of_lt_base hm] at h
          exact hdigit n hn m hm (List.singleton_inj.mp h)
        · rw [Nat.toDigits_of_base_le hlow (by omega), ← List.nil_append [n.digitChar]] at h
          exact absurd (List.append_inj' h rfl).1.symm Nat.toDigits_ne_nil
      · have hsplit : Nat.toDigits base n = _ := Nat.toDigits_of_base_le hlow (by omega)
        by_cases hm : m < base
        · rw [hsplit, Nat.toDigits_of_lt_base hm, ← List.nil_append [m.digitChar]] at h
          exact absurd (List.append_inj' h rfl).1 Nat.toDigits_ne_nil
        · have hsplit' : Nat.toDigits base m = _ := Nat.toDigits_of_base_le hlow (by omega)
          rw [hsplit, hsplit'] at h
          obtain ⟨hfront, hback⟩ := List.append_inj' h rfl
          have hquotient := ih (n / base) (Nat.div_lt_self (by omega) hlow) hfront
          have hremainder := hdigit _ (hlast n) _ (hlast m) (List.singleton_inj.mp hback)
          rw [← Nat.div_add_mod n base, ← Nat.div_add_mod m base, hquotient, hremainder]

theorem hex_injective (h : hex n = hex m) : n = m := by
  have hdigits : Nat.toDigits 16 n = Nat.toDigits 16 m := String.ofList_injective h
  exact toDigits_injective (by decide) (by decide) hdigits

end Digits

section Joining

variable {parts : List String} {sep : String} {c : Char}

/-- The characters of joined pieces. -/
theorem toList_join (hsep : sep.toList = [c]) :
    (join parts sep).toList = [c].intercalate (parts.map String.toList) := by
  rw [join]
  rw [String.toList_intercalate, hsep]

/-- Joining pieces without a separator in them is undone by splitting. -/
theorem split_join (hsep : sep.toList = [c]) (hparts : parts ≠ [])
    (hfree : ∀ part ∈ parts, c ∉ part.toList) :
    split (join parts sep) c = parts := by
  rw [split]
  rw [toList_join hsep, List.splitOn_intercalate]
  · rw [List.map_map]
    exact List.map_id'' (fun part => String.ofList_toList) parts
  · intro chars hchars
    obtain ⟨part, hpart, rfl⟩ := List.mem_map.mp hchars
    exact hfree part hpart
  · simpa using hparts

theorem join_cons_cons (first second : String) :
    join (first :: second :: parts) sep = first ++ sep ++ join (second :: parts) sep := by
  simp only [join]
  apply String.toList_inj.mp
  rw [String.toList_append, String.toList_append, String.toList_intercalate,
    String.toList_intercalate, List.map_cons, List.map_cons, List.intercalate_cons_cons]

/-- What is appended to joined pieces is appended to the last one. -/
theorem join_append (front : List String) (last text : String) :
    join (front ++ [last]) sep ++ text = join (front ++ [last ++ text]) sep := by
  induction front with
  | nil => simp [join]
  | cons first front ih =>
      cases front with
      | nil => simp [join, String.append_assoc]
      | cons second front =>
          rw [List.cons_append, List.cons_append, List.cons_append, List.cons_append,
            join_cons_cons, join_cons_cons, String.append_assoc]
          exact congrArg (first ++ sep ++ ·) ih

/-- Joining the pieces of a split string gives it back. -/
theorem join_split {s : String} (hsep : sep.toList = [c]) : join (split s c) sep = s := by
  apply String.toList_inj.mp
  have hpieces : (split s c).map String.toList = s.toList.splitOn c := by
    rw [split]
    rw [List.map_map]
    exact List.map_id'' (fun chars => String.toList_ofList) _
  rw [toList_join hsep, hpieces, List.intercalate_splitOn]

theorem len_append (s t : String) : len (s ++ t) = len s + len t := by
  simp only [len]
  rw [asBytes_append, List.length_append]

/-- The pieces of a split string hold its bytes, a separator apart. -/
theorem len_split (s : String) (hsep : sep.toList = [c]) (hlen : len sep = 1) :
    ((split s c).map fun piece => len piece + 1).sum = len s + 1 := by
  have hjoin : ∀ pieces : List String, pieces ≠ [] →
      (pieces.map fun piece => len piece + 1).sum = len (join pieces sep) + 1 := by
    intro pieces hne
    induction pieces with
    | nil => exact absurd rfl hne
    | cons first rest ih =>
        cases rest with
        | nil => simp [join]
        | cons second rest =>
            rw [List.map_cons, List.sum_cons, ih (List.cons_ne_nil _ _), join_cons_cons,
              len_append, len_append, hlen]
            omega
  have hne : split s c ≠ [] := by
    rw [split]
    simp
  rw [hjoin _ hne, join_split hsep]

/-- Splitting at a separator splits what is before and what is behind it. -/
theorem split_append {s t : String} (hsep : sep.toList = [c]) :
    split (s ++ sep ++ t) c = split s c ++ split t c := by
  simp only [split]
  rw [String.toList_append, String.toList_append, hsep, List.append_assoc,
    List.singleton_append, List.splitOn_append_cons_self, List.map_append]

theorem split_of_not_mem {s : String} (h : c ∉ s.toList) : split s c = [s] := by
  rw [split]
  rw [List.splitOn_eq_singleton h, List.map_singleton, String.ofList_toList]

/-- No piece holds the separator. -/
theorem not_mem_of_mem_split {s piece : String} (h : piece ∈ split s c) : c ∉ piece.toList := by
  have hparts : ∀ chars : List Char, ∀ part ∈ chars.splitOn c, c ∉ part := by
    intro chars
    induction chars with
    | nil =>
        intro part hpart
        rw [List.splitOn_nil, List.mem_singleton] at hpart
        rw [hpart]
        nofun
    | cons first rest ih =>
        intro part hpart
        rw [List.splitOn_cons_eq_if_modifyHead] at hpart
        split at hpart
        · rcases List.mem_cons.mp hpart with rfl | hrest
          · nofun
          · exact ih part hrest
        · next hne =>
            cases hsplit : rest.splitOn c with
            | nil => exact absurd hsplit (List.splitOn_ne_nil c rest)
            | cons head tail =>
                rw [hsplit] at hpart ih
                rcases List.mem_cons.mp hpart with rfl | htail
                · intro hmem
                  rcases List.mem_cons.mp hmem with heq | hhead
                  · exact hne (beq_iff_eq.mpr heq.symm)
                  · exact ih head List.mem_cons_self hhead
                · exact ih part (List.mem_cons_of_mem _ htail)
  obtain ⟨chars, hchars, rfl⟩ := List.mem_map.mp h
  rw [String.toList_ofList]
  exact hparts s.toList chars hchars

/-- A character of joined pieces is the separator or in one of the pieces. -/
theorem mem_join {d : Char} (hsep : sep.toList = [c])
    (h : d ∈ (join parts sep).toList) :
    d = c ∨ ∃ part ∈ parts, d ∈ part.toList := by
  rw [toList_join hsep] at h
  induction parts with
  | nil => simp at h
  | cons part rest ih =>
      cases rest with
      | nil => exact Or.inr ⟨part, List.mem_cons_self, by simpa using h⟩
      | cons next rest =>
          rw [List.map_cons, List.map_cons, List.intercalate_cons_cons,
            List.mem_append, List.mem_append, List.mem_singleton] at h
          rcases h with (hpart | hsep) | hrest
          · exact Or.inr ⟨part, List.mem_cons_self, hpart⟩
          · exact Or.inl hsep
          · rcases ih hrest with hsep | ⟨other, hother, hmem⟩
            · exact Or.inl hsep
            · exact Or.inr ⟨other, List.mem_cons_of_mem _ hother, hmem⟩

/-- Joined pieces start like the first one. -/
theorem head?_join {first : String} (hsep : sep.toList = [c])
    (hfirst : first ≠ "") :
    (join (first :: parts) sep).toList.head? = first.toList.head? := by
  have hne : first.toList ≠ [] := by simpa using hfirst
  rw [toList_join hsep, List.map_cons]
  cases parts with
  | nil => simp
  | cons next rest =>
      rw [List.map_cons, List.intercalate_cons_cons, List.append_assoc,
        List.head?_append_of_ne_nil _ hne]

end Joining

section Prefixes

variable {s t pre rest sep : String} {c : Char}

theorem stripPrefix_eq_some : stripPrefix s pre = some rest ↔ s = pre ++ rest := by
  rw [stripPrefix]
  split
  · next hprefix =>
      obtain ⟨after, hafter⟩ := List.isPrefixOf_iff_prefix.mp hprefix
      rw [Option.some.injEq, ← hafter, List.drop_left]
      constructor
      · rintro rfl
        apply String.toList_inj.mp
        rw [String.toList_append, String.toList_ofList, hafter]
      · rintro rfl
        rw [String.toList_append] at hafter
        rw [List.append_cancel_left hafter, String.ofList_toList]
  · next hprefix =>
      constructor
      · nofun
      · rintro rfl
        refine absurd (List.isPrefixOf_iff_prefix.mpr ?_) hprefix
        rw [String.toList_append]
        exact List.prefix_append _ _

@[simp] theorem stripPrefix_append : stripPrefix (pre ++ rest) pre = some rest :=
  stripPrefix_eq_some.mpr rfl

/-- A string is split at the first separator in it. -/
theorem splitOnce_eq_some (hsep : sep.toList = [c]) :
    splitOnce s c = some (t, rest) ↔ s = t ++ sep ++ rest ∧ c ∉ t.toList := by
  constructor
  · intro h
    rw [splitOnce] at h
    split at h
    · next hmem =>
        obtain ⟨before, after, hsplit, hfree⟩ := List.eq_append_cons_of_mem hmem
        have hkept : ∀ d ∈ before, (decide (d ≠ c)) = true := by
          intro d hd
          rw [decide_eq_true_eq]
          rintro rfl
          exact hfree hd
        rw [hsplit, List.takeWhile_append_of_pos hkept, List.dropWhile_append_of_pos hkept,
          List.takeWhile_cons_of_neg (by simp), List.dropWhile_cons_of_neg (by simp),
          List.append_nil, List.drop_succ_cons, List.drop_zero, Option.some.injEq,
          Prod.mk.injEq] at h
        obtain ⟨rfl, rfl⟩ := h
        rw [String.toList_ofList]
        refine ⟨?_, hfree⟩
        apply String.toList_inj.mp
        rw [hsplit, String.toList_append, String.toList_append, hsep, String.toList_ofList,
          String.toList_ofList, List.append_assoc, List.singleton_append]
    · nomatch h
  · rintro ⟨rfl, hfree⟩
    have hlist : (t ++ sep ++ rest).toList = t.toList ++ c :: rest.toList := by
      rw [String.toList_append, String.toList_append, hsep, List.append_assoc,
        List.singleton_append]
    have hkept : ∀ d ∈ t.toList, (decide (d ≠ c)) = true := by
      intro d hd
      rw [decide_eq_true_eq]
      rintro rfl
      exact hfree hd
    rw [splitOnce]
    rw [hlist, if_pos (List.mem_append_cons_self),
      List.takeWhile_append_of_pos hkept, List.dropWhile_append_of_pos hkept,
      List.takeWhile_cons_of_neg (by simp), List.dropWhile_cons_of_neg (by simp),
      List.append_nil, List.drop_succ_cons, List.drop_zero, String.ofList_toList,
      String.ofList_toList]

end Prefixes

theorem intercalate_part {α : Type*} {sep : List α} (piece : List α)
    (before after : List (List α)) :
    piece <:+: sep.intercalate (before ++ piece :: after) := by
  induction before with
  | nil =>
      cases after with
      | nil => simp
      | cons next rest =>
          rw [List.nil_append, List.intercalate_cons_cons, List.append_assoc]
          exact (List.prefix_append _ _).isInfix
  | cons first rest ih =>
      obtain ⟨next, others, hrest⟩ :=
        List.exists_cons_of_ne_nil (List.append_ne_nil_of_right_ne_nil rest
          (List.cons_ne_nil piece after))
      rw [List.cons_append, hrest, List.intercalate_cons_cons, ← hrest]
      exact ih.trans (List.suffix_append _ _).isInfix

/-- What `trim` leaves is a part of the string. -/
theorem trim_part (s : String) : (trim s).toList <:+: s.toList := by
  rw [trim]
  rw [String.toList_ofList]
  have hfront : (s.toList.dropWhile isWhiteSpace).reverse.dropWhile isWhiteSpace <:+
      (s.toList.dropWhile isWhiteSpace).reverse := List.dropWhile_suffix _
  have hback := List.reverse_prefix.mpr hfront
  rw [List.reverse_reverse] at hback
  exact hback.isInfix.trans (List.dropWhile_suffix _).isInfix

/-- A piece of a split string is a part of it. -/
theorem split_part {s piece : String} {c : Char} (h : piece ∈ split s c) :
    piece.toList <:+: s.toList := by
  obtain ⟨chars, hchars, rfl⟩ := List.mem_map.mp h
  obtain ⟨before, after, hsplit⟩ := List.append_of_mem hchars
  rw [String.toList_ofList]
  have hwhole : [c].intercalate (s.toList.splitOn c) = s.toList := List.intercalate_splitOn c
  rw [hsplit] at hwhole
  rw [← hwhole]
  exact intercalate_part chars before after

theorem forall₂_mem_right {α β : Type*} {R : α → β → Prop} {xs : List α}
    {ys : List β} (h : List.Forall₂ R xs ys) {y : β} (hy : y ∈ ys) :
    ∃ x ∈ xs, R x y := by
  induction h with
  | nil => cases hy
  | cons hhead _ ih =>
      rcases List.mem_cons.mp hy with rfl | hy
      · exact ⟨_, List.mem_cons_self, hhead⟩
      · obtain ⟨x, hx, hR⟩ := ih hy
        exact ⟨x, List.mem_cons_of_mem _ hx, hR⟩

/-- What holds of the characters of a text can be tested one character after another. -/
theorem forall_chars {text : String} {P : Char → Prop} [DecidablePred P]
    (h : text.toList.all (fun c => decide (P c)) = true) : ∀ c ∈ text.toList, P c := by
  intro c hc
  exact of_decide_eq_true (List.all_eq_true.mp h c hc)

section Trimming

variable {text before after : String}

/-- The text neither starts nor ends with white space. -/
def Bare (text : String) : Prop :=
  (∀ c ∈ text.toList.head?, isWhiteSpace c = false) ∧
    ∀ c ∈ text.toList.getLast?, isWhiteSpace c = false

theorem bare_of_solid (h : ∀ c ∈ text.toList, isWhiteSpace c = false) : Bare text :=
  ⟨fun c hc => h c (List.mem_of_mem_head? hc), fun c hc => h c (List.mem_of_mem_getLast? hc)⟩

/-- The ends of a text decide whether it is bare. -/
theorem Bare.append {first last : String} (hfirst : Bare first) (hlast : Bare last)
    (hfirstSome : first ≠ "") (hlastSome : last ≠ "") (middle : String) :
    Bare (first ++ middle ++ last) := by
  have hstart : first.toList ≠ [] := by simpa using hfirstSome
  have hend : last.toList ≠ [] := by simpa using hlastSome
  constructor
  · intro c hc
    rw [String.append_assoc, String.toList_append, List.head?_append_of_ne_nil _ hstart] at hc
    exact hfirst.1 c hc
  · intro c hc
    rw [String.toList_append, List.getLast?_append_of_ne_nil _ hend] at hc
    exact hlast.2 c hc

theorem dropWhile_padding {padding chars : List Char}
    (hpadding : ∀ c ∈ padding, isWhiteSpace c = true)
    (hchars : ∀ c ∈ chars.head?, isWhiteSpace c = false) :
    (padding ++ chars).dropWhile isWhiteSpace = chars := by
  rw [List.dropWhile_append_of_pos hpadding]
  cases chars with
  | nil => rfl
  | cons c rest =>
      apply List.dropWhile_cons_of_neg
      rw [hchars c rfl]
      exact Bool.false_ne_true

/-- `trim` takes the white space around a bare text. -/
theorem trim_padded (hbefore : ∀ c ∈ before.toList, isWhiteSpace c = true)
    (hafter : ∀ c ∈ after.toList, isWhiteSpace c = true) (hbare : Bare text) :
    trim (before ++ text ++ after) = text := by
  have hback : (after.toList.reverse ++ text.toList.reverse).dropWhile isWhiteSpace =
      text.toList.reverse := by
    apply dropWhile_padding
    · intro c hc
      exact hafter c (List.mem_reverse.mp hc)
    · rw [List.head?_reverse]
      exact hbare.2
  simp only [trim]
  rw [String.append_assoc, String.toList_append, String.toList_append]
  by_cases hblank : text.toList = []
  · rw [hblank, List.nil_append, ← List.append_nil (before.toList ++ after.toList),
      dropWhile_padding]
    · rw [String.toList_eq_nil_iff.mp hblank]
      rfl
    · intro c hc
      rcases List.mem_append.mp hc with hc | hc
      · exact hbefore c hc
      · exact hafter c hc
    · nofun
  · rw [dropWhile_padding hbefore, List.reverse_append, hback, List.reverse_reverse,
      String.ofList_toList]
    rw [List.head?_append_of_ne_nil _ hblank]
    exact hbare.1

/-- `trim` leaves a text without white space. -/
theorem trim_of_solid (h : ∀ c ∈ text.toList, isWhiteSpace c = false) : trim text = text := by
  have htrim := @trim_padded text "" "" nofun nofun (bare_of_solid h)
  rwa [String.empty_append, String.append_empty] at htrim

end Trimming

end EnvoyFiles.Text
