import EnvoyFiles.Io.Inert

/-!
# Short reads

A positional read may return fewer bytes than it was asked for, and each may return
something else than the one before.  `read_at` is run here against replies that are free to
vary from read to read, with the reads that it makes recorded.  Whatever the replies are, it
ends after at most one read a byte, with the error of one of its reads or with exactly the
asked part of the file.
-/

namespace EnvoyFiles.Engine

/-- A positional read: what it is asked for, and what it replies. -/
structure ReadCall where
  offset : ℕ
  want : ℕ
  reply : Except IoError Bytes

/-- The loop of `read_at` behind the first read, as the reads it makes and what it returns.
`reply` gives the reply to each read by the number of reads before it. -/
def readRestCalls (reply : ℕ → ℕ → ℕ → Except IoError Bytes) (offset len made : ℕ)
    (buf : Bytes) : List ReadCall × ReadResult :=
  if buf.length < len then
    let want := len - buf.length
    let position := offset + buf.length
    match reply made position want with
    | .error error => ([⟨position, want, .error error⟩], .error error)
    | .ok more =>
        if more.length = 0 then
          ([⟨position, want, .ok more⟩], .ok buf)
        else
          let (calls, result) := readRestCalls reply offset len (made + 1) (buf ++ more)
          (⟨position, want, .ok more⟩ :: calls, result)
  else
    ([], .ok buf)
termination_by len - buf.length
decreasing_by
  rw [List.length_append]
  omega

/-- `read_at` of an open file, as the reads it makes and what it returns. -/
def readAtCalls (reply : ℕ → ℕ → ℕ → Except IoError Bytes) (offset len : ℕ) :
    List ReadCall × ReadResult :=
  match reply 0 offset len with
  | .error error => ([⟨offset, len, .error error⟩], .error error)
  | .ok first =>
      if first.length = len ∨ first.length = 0 then
        ([⟨offset, len, .ok first⟩], .ok first)
      else
        let (calls, result) := readRestCalls reply offset len 1 first
        (⟨offset, len, .ok first⟩ :: calls, result)

/-! ## Replies that do not vary -/

theorem readRestCalls_constant (read : ℕ → ℕ → Except IoError Bytes) (offset len made : ℕ)
    (buf : Bytes) :
    (readRestCalls (fun _ => read) offset len made buf).2 = readRest read offset len buf := by
  fun_induction readRest read offset len buf generalizing made with
  | case1 buf hshort error herror =>
      rw [readRestCalls, if_pos hshort]
      dsimp only
      rw [herror]
  | case2 buf hshort more hmore hend =>
      rw [readRestCalls, if_pos hshort]
      dsimp only
      rw [hmore]
      simp only [if_pos hend]
  | case3 buf hshort more hmore hend ih =>
      rw [readRestCalls, if_pos hshort]
      dsimp only
      rw [hmore]
      simp only [if_neg hend]
      exact ih (made + 1)
  | case4 buf hfull => rw [readRestCalls, if_neg hfull]

/-- Where the reply to a read depends on what is asked alone, this is `read_at`. -/
theorem readAtCalls_constant (read : ℕ → ℕ → Except IoError Bytes) (offset len : ℕ) :
    (readAtCalls (fun _ => read) offset len).2 = readAt (some read) offset len := by
  rw [readAtCalls, readAt]
  dsimp only
  cases read offset len with
  | error error => rfl
  | ok first =>
      dsimp only
      split
      · rfl
      · exact readRestCalls_constant read offset len 1 first

/-! ## Replies of a file -/

/-- What a file of this content may reply to a positional read: any error, or bytes of the
file from the offset on, no more than are asked for, and none only if there are none. -/
inductive Replies (content : Bytes) (offset want : ℕ) : Except IoError Bytes → Prop where
  | error (error : IoError) : Replies content offset want (.error error)
  | data {data : Bytes} : data <+: (content.drop offset).take want →
      (data = [] → (content.drop offset).take want = []) →
      Replies content offset want (.ok data)

section Replies

variable {content buf data : Bytes} {offset len : ℕ}
  {reply : ℕ → ℕ → ℕ → Except IoError Bytes}

theorem Replies.part (h : Replies content offset len (.ok data)) :
    data <+: (content.drop offset).take len := by
  cases h with
  | data hpart _ => exact hpart

theorem Replies.eof (h : Replies content offset len (.ok data)) (hdata : data.length = 0) :
    (content.drop offset).take len = [] := by
  cases h with
  | data _ heof => exact heof (List.length_eq_zero_iff.mp hdata)

/-- A part of the file behind which nothing is left to read is all that was asked for. -/
theorem part_complete (hbuf : buf <+: (content.drop offset).take len)
    (hrest : (content.drop (offset + buf.length)).take (len - buf.length) = []) :
    buf = (content.drop offset).take len := by
  obtain ⟨rest, hparts⟩ := hbuf
  have hempty : rest = [] := by
    rw [← hrest, ← List.drop_drop, ← List.drop_take, ← hparts, List.drop_left]
  rw [← hparts, hempty, List.append_nil]

/-- What the loop returns, from a buffer that holds a part of the file on. -/
theorem readRestCalls_spec (made : ℕ)
    (hreply : ∀ call position want, Replies content position want (reply call position want))
    (hbuf : buf <+: (content.drop offset).take len) :
    (∃ error, (readRestCalls reply offset len made buf).2 = .error error ∧
      ∃ call ∈ (readRestCalls reply offset len made buf).1, call.reply = .error error) ∨
    (readRestCalls reply offset len made buf).2 = .ok ((content.drop offset).take len) := by
  fun_induction readRestCalls reply offset len made buf with
  | case1 made buf _ want position error _ =>
      exact Or.inl ⟨error, rfl, _, List.mem_singleton_self _, rfl⟩
  | case2 made buf _ want position more hmore hend =>
      have hanswer := hreply made position want
      rw [hmore] at hanswer
      right
      rw [← part_complete hbuf (hanswer.eof hend)]
  | case3 made buf _ want position more hmore hend calls result hrun ih =>
      have hanswer := hreply made position want
      rw [hmore] at hanswer
      have hrest := ih (part_append hbuf hanswer.part)
      rw [hrun] at hrest
      rcases hrest with ⟨error, hresult, call, hcall, herror⟩ | hresult
      · exact Or.inl ⟨error, hresult, call, List.mem_cons_of_mem _ hcall, herror⟩
      · exact Or.inr hresult
  | case4 made buf hfull =>
      right
      rw [← part_complete hbuf]
      rw [Nat.sub_eq_zero_of_le (Nat.not_lt.mp hfull), List.take_zero]

/-- The loop makes at most one read for each byte that is missing. -/
theorem readRestCalls_length (made : ℕ) :
    (readRestCalls reply offset len made buf).1.length ≤ len - buf.length := by
  fun_induction readRestCalls reply offset len made buf with
  | case1 made buf hshort _ _ _ _ => exact Nat.sub_pos_of_lt hshort
  | case2 made buf hshort _ _ _ _ _ => exact Nat.sub_pos_of_lt hshort
  | case3 made buf hshort _ _ more _ hend calls _ hrun ih =>
      rw [hrun, List.length_append] at ih
      dsimp only at ih
      simp only [List.length_cons]
      omega
  | case4 => exact Nat.zero_le _

/-- Every read of the loop asks for all that is missing, at a position in the file or at its
end. -/
theorem readRestCalls_positions (made : ℕ)
    (hreply : ∀ call position want, Replies content position want (reply call position want))
    (hbuf : buf <+: (content.drop offset).take len) (hne : buf ≠ []) :
    ∀ call ∈ (readRestCalls reply offset len made buf).1,
      call.offset + call.want = offset + len ∧ call.offset ≤ content.length := by
  -- A buffer that holds a byte of the file ends within the file.
  have hend {buf : Bytes} (hbuf : buf <+: (content.drop offset).take len) (hne : buf ≠ []) :
      offset + buf.length ≤ content.length := by
    have hle := hbuf.length_le
    have hpos := List.length_pos_of_ne_nil hne
    rw [List.length_take, List.length_drop] at hle
    omega
  fun_induction readRestCalls reply offset len made buf with
  | case1 made buf hshort want position error _ =>
      intro call hcall
      rw [List.mem_singleton] at hcall
      subst hcall
      exact ⟨by dsimp only [position, want]; omega, hend hbuf hne⟩
  | case2 made buf hshort want position more _ _ =>
      intro call hcall
      rw [List.mem_singleton] at hcall
      subst hcall
      exact ⟨by dsimp only [position, want]; omega, hend hbuf hne⟩
  | case3 made buf hshort want position more hmore _ calls result hrun ih =>
      have hanswer := hreply made position want
      rw [hmore] at hanswer
      have hrest := ih (part_append hbuf hanswer.part) (by simp [hne])
      rw [hrun] at hrest
      intro call hcall
      rcases List.mem_cons.mp hcall with rfl | hcall
      · exact ⟨by dsimp only [position, want]; omega, hend hbuf hne⟩
      · exact hrest call hcall
  | case4 => exact fun _ hcall => nomatch hcall

/-- No position that `read_at` adds up lies behind both the asked offset and the end of the
file. -/
theorem readAtCalls_positions
    (hreply : ∀ call position want, Replies content position want (reply call position want)) :
    ∀ call ∈ (readAtCalls reply offset len).1,
      call.offset + call.want = offset + len ∧ call.offset ≤ max offset content.length := by
  have hanswer := hreply 0 offset len
  rw [readAtCalls]
  cases hfirst : reply 0 offset len with
  | error error =>
      intro call hcall
      rw [List.mem_singleton] at hcall
      subst hcall
      exact ⟨rfl, Nat.le_max_left _ _⟩
  | ok first =>
      rw [hfirst] at hanswer
      dsimp only
      split
      · intro call hcall
        rw [List.mem_singleton] at hcall
        subst hcall
        exact ⟨rfl, Nat.le_max_left _ _⟩
      · next hshort =>
          have hne : first ≠ [] := fun hnil => hshort (Or.inr (by rw [hnil]; rfl))
          intro call hcall
          rcases List.mem_cons.mp hcall with rfl | hcall
          · exact ⟨rfl, Nat.le_max_left _ _⟩
          · obtain ⟨hend, hle⟩ :=
              readRestCalls_positions 1 hreply hanswer.part hne call hcall
            exact ⟨hend, Nat.le_trans hle (Nat.le_max_right _ _)⟩

/-- Whatever short reads a file gives, `read_at` ends after at most one read a byte, with
the error of one of its reads or with exactly the bytes from the offset on. -/
theorem read_at_reassembles (content : Bytes) (offset len : ℕ)
    (reply : ℕ → ℕ → ℕ → Except IoError Bytes)
    (hreply : ∀ call position want, Replies content position want (reply call position want)) :
    (readAtCalls reply offset len).1.length ≤ max 1 len ∧
      ((∃ error, (readAtCalls reply offset len).2 = .error error ∧
          ∃ call ∈ (readAtCalls reply offset len).1, call.reply = .error error) ∨
        (readAtCalls reply offset len).2 = .ok ((content.drop offset).take len)) := by
  have hanswer := hreply 0 offset len
  rw [readAtCalls]
  cases hfirst : reply 0 offset len with
  | error error =>
      exact ⟨Nat.le_max_left _ _,
        Or.inl ⟨error, rfl, _, List.mem_singleton_self _, rfl⟩⟩
  | ok first =>
      rw [hfirst] at hanswer
      dsimp only
      split
      · next hend =>
          refine ⟨Nat.le_max_left _ _, Or.inr ?_⟩
          dsimp only
          congr 1
          rcases hend with hwhole | hnone
          · apply part_complete hanswer.part
            rw [hwhole, Nat.sub_self, List.take_zero]
          · rw [hanswer.eof hnone]
            exact List.length_eq_zero_iff.mp hnone
      · next hshort =>
          have hlength := @readRestCalls_length first offset len reply 1
          have hle := hanswer.part.length_le
          rw [List.length_take] at hle
          rw [not_or] at hshort
          constructor
          · simp only [List.length_cons]
            omega
          · rcases readRestCalls_spec 1 hreply hanswer.part with
              ⟨error, hresult, call, hcall, herror⟩ | hresult
            · exact Or.inl ⟨error, hresult, call, List.mem_cons_of_mem _ hcall, herror⟩
            · exact Or.inr hresult

end Replies

/-- Ten bytes, of which the first read gives one, the second two, and so on. -/
def growingReads : ℕ → ℕ → ℕ → Except IoError Bytes := fun call position want =>
  .ok ((([0, 1, 2, 3, 4, 5, 6, 7, 8, 9] : Bytes).drop position).take (min want (call + 1)))

theorem growingReads_replies (call position want : ℕ) :
    Replies [0, 1, 2, 3, 4, 5, 6, 7, 8, 9] position want (growingReads call position want) := by
  refine .data (List.take_prefix_take_left (Nat.min_le_left _ _)) ?_
  intro hnone
  rw [List.take_eq_nil_iff] at hnone ⊢
  rcases hnone with hwant | hend
  · left
    omega
  · exact Or.inr hend

theorem read_at_reassembles_growing :
    (readAtCalls growingReads 5 8).1.length ≤ 8 ∧
      (readAtCalls growingReads 5 8).2 = .ok [5, 6, 7, 8, 9] := by
  obtain ⟨hlength, herror | hwhole⟩ :=
    read_at_reassembles _ 5 8 growingReads growingReads_replies
  · obtain ⟨error, herror, -⟩ := herror
    simp [readAtCalls, readRestCalls, growingReads] at herror
  · exact ⟨hlength, hwhole⟩

end EnvoyFiles.Engine
