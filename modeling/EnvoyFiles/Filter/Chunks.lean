import EnvoyFiles.Filter.Callbacks

/-!
# Chunk lists and the first entries of `ready`

What `execute_plan` and `begin_streaming` build before the first pump: the
entries of the inline chunks and the one that a prefetch seeds.
-/

namespace EnvoyFiles.Filter

/-- The bytes of an inline chunk. -/
def Chunk.inlineBytes : Chunk → Option Bytes
  | .inline bytes => some bytes
  | .file _ _ => none

/-- The inline chunks, and only they, are ready from the start. -/
theorem lookup_inlineReady (chunks : List Chunk) (first seq : ℕ) :
    (inlineReady first chunks).lookup seq =
      if first ≤ seq then chunks[seq - first]?.bind Chunk.inlineBytes else none := by
  induction chunks generalizing first with
  | nil => simp [inlineReady]
  | cons chunk chunks ih =>
      rcases Nat.lt_trichotomy seq first with hlt | rfl | hgt
      · have hnot : ¬first ≤ seq := by omega
        have hnot' : ¬first + 1 ≤ seq := by omega
        cases chunk with
        | inline bytes =>
            rw [inlineReady, AList.lookup_insert_ne (Nat.ne_of_lt hlt), ih,
              if_neg hnot, if_neg hnot']
        | file offset len => rw [inlineReady, ih, if_neg hnot, if_neg hnot']
      · have hnot : ¬seq + 1 ≤ seq := by omega
        cases chunk with
        | inline bytes => simp [inlineReady, Chunk.inlineBytes]
        | file offset len =>
            rw [inlineReady, ih, if_neg hnot]
            simp [Chunk.inlineBytes]
      · have hle : first ≤ seq := by omega
        have hle' : first + 1 ≤ seq := by omega
        have hindex : seq - first = (seq - (first + 1)) + 1 := by omega
        have hget : (chunk :: chunks)[seq - first]? = chunks[seq - (first + 1)]? := by
          rw [hindex, List.getElem?_cons_succ]
        cases chunk with
        | inline bytes =>
            rw [inlineReady, AList.lookup_insert_ne (Nat.ne_of_gt hgt), ih,
              if_pos hle, if_pos hle', hget]
        | file offset len => rw [inlineReady, ih, if_pos hle, if_pos hle', hget]

/-- A seeded entry is an inline one or the prefetch that covers chunk 0. -/
theorem lookup_seedPrefetch {chunks : List Chunk} {prefetched bytes : Bytes}
    {seq : ℕ}
    (h : (seedPrefetch chunks prefetched (inlineReady 0 chunks)).lookup seq =
      some bytes) :
    chunks[seq]? = some (.inline bytes) ∨
      (seq = 0 ∧ bytes = prefetched ∧
        chunks[0]? = some (.file 0 prefetched.length)) := by
  have hinline : ∀ {seq bytes}, (inlineReady 0 chunks).lookup seq = some bytes →
      chunks[seq]? = some (.inline bytes) := by
    intro seq bytes hlookup
    rw [lookup_inlineReady, if_pos (Nat.zero_le seq), Nat.sub_zero] at hlookup
    obtain ⟨chunk, hchunk, hbytes⟩ := Option.bind_eq_some_iff.mp hlookup
    cases chunk with
    | inline bytes' => cases hbytes; exact hchunk
    | file offset len => cases hbytes
  simp only [seedPrefetch] at h
  split at h
  · next len rest =>
      split at h
      · next hlen =>
          by_cases hseq : seq = 0
          · subst hseq
            rw [AList.lookup_insert] at h
            refine Or.inr ⟨rfl, (Option.some.inj h).symm, ?_⟩
            rw [List.getElem?_cons_zero, hlen]
          · rw [AList.lookup_insert_ne hseq] at h
            exact Or.inl (hinline h)
      · exact Or.inl (hinline h)
  · exact Or.inl (hinline h)

/-- Seeding keeps the inline entries. -/
theorem inline_mem_seedPrefetch {chunks : List Chunk} {prefetched bytes : Bytes}
    {seq : ℕ} (h : chunks[seq]? = some (.inline bytes)) :
    seq ∈ seedPrefetch chunks prefetched (inlineReady 0 chunks) := by
  have hmem : seq ∈ inlineReady 0 chunks := by
    rw [← AList.lookup_isSome, lookup_inlineReady, if_pos (Nat.zero_le seq),
      Nat.sub_zero, h]
    rfl
  simp only [seedPrefetch]
  split
  · split
    · exact (AList.mem_insert _).mpr (Or.inr hmem)
    · exact hmem
  · exact hmem

end EnvoyFiles.Filter
