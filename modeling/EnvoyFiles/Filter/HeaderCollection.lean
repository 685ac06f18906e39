import EnvoyFiles.Filter.Request
import EnvoyFiles.Support.Strings

/-!
# Collecting request headers

The one pass over the headers fills each slot with the first value that it can take.  It
replaces a lookup of the first value of each key; the two differ if the first value of a
key is empty, or no method, and a later one is not.
-/

namespace EnvoyFiles.Filter

open Text

/-! ## The slots -/

/-- The headers collected as text. -/
inductive TextKey where
  | path
  | acceptEncoding
  | ifNoneMatch
  | ifModifiedSince
  | ifMatch
  | ifUnmodifiedSince
  | ifRange
  | range
  deriving DecidableEq

def TextKey.name : TextKey → String
  | .path => ":path"
  | .acceptEncoding => "accept-encoding"
  | .ifNoneMatch => "if-none-match"
  | .ifModifiedSince => "if-modified-since"
  | .ifMatch => "if-match"
  | .ifUnmodifiedSince => "if-unmodified-since"
  | .ifRange => "if-range"
  | .range => "range"

def TextKey.slot : TextKey → RawRequestHeaders → Option String
  | .path => (·.path)
  | .acceptEncoding => (·.acceptEncoding)
  | .ifNoneMatch => (·.ifNoneMatch)
  | .ifModifiedSince => (·.ifModifiedSince)
  | .ifMatch => (·.ifMatch)
  | .ifUnmodifiedSince => (·.ifUnmodifiedSince)
  | .ifRange => (·.ifRange)
  | .range => (·.range)

/-- The headers with the slot filled. -/
def TextKey.fill (raw : RawRequestHeaders) (value : Bytes) : TextKey → RawRequestHeaders
  | .path => { raw with path := fillSlot raw.path value }
  | .acceptEncoding => { raw with acceptEncoding := fillSlot raw.acceptEncoding value }
  | .ifNoneMatch => { raw with ifNoneMatch := fillSlot raw.ifNoneMatch value }
  | .ifModifiedSince => { raw with ifModifiedSince := fillSlot raw.ifModifiedSince value }
  | .ifMatch => { raw with ifMatch := fillSlot raw.ifMatch value }
  | .ifUnmodifiedSince => { raw with ifUnmodifiedSince := fillSlot raw.ifUnmodifiedSince value }
  | .ifRange => { raw with ifRange := fillSlot raw.ifRange value }
  | .range => { raw with range := fillSlot raw.range value }

/-- The text of a value that is not empty. -/
def textValue (value : Bytes) : Option String :=
  if value.isEmpty then none else some (fromUtf8Lossy value)

/-- The values of the pairs with the name, in their order. -/
def valuesOf (name : String) (headers : List (Bytes × Bytes)) : List Bytes :=
  (headers.filter fun header => header.1 = asBytes name).map (·.2)

section Slots

variable {raw raw' : RawRequestHeaders} {headers : List (Bytes × Bytes)} {name : String}
  {key value : Bytes}

theorem asBytes_inj {s t : String} : asBytes s = asBytes t ↔ s = t :=
  ⟨asBytes_injective, congrArg asBytes⟩

theorem fillSlot_eq (slot : Option String) (value : Bytes) :
    fillSlot slot value = slot.or (textValue value) := by
  simp only [fillSlot, textValue]
  cases slot with
  | none => cases value.isEmpty <;> rfl
  | some text => rfl

/-- One round fills the slot of its key. -/
theorem collectOne_slot (textKey : TextKey) (value : Bytes) :
    textKey.slot (raw.collectOne (asBytes textKey.name, value)) =
      (textKey.slot raw).or (textValue value) := by
  rw [← fillSlot_eq]
  cases textKey <;> simp [RawRequestHeaders.collectOne, TextKey.name, TextKey.slot, asBytes_inj]

theorem collectOne_method (value : Bytes) :
    (raw.collectOne (asBytes ":method", value)).method =
      raw.method.or (methodFromBytes value) := by
  simp only [RawRequestHeaders.collectOne, eq_self, if_true]
  obtain ⟨method, _, _, _, _, _, _, _, _⟩ := raw
  cases method <;> rfl

/-- One round sets the method, fills the slot of its key or does nothing. -/
theorem collectOne_cases (raw : RawRequestHeaders) (key value : Bytes) :
    (key = asBytes ":method" ∧
        ∃ method, raw.collectOne (key, value) = { raw with method := method }) ∨
      (∃ textKey : TextKey, key = asBytes textKey.name ∧
        raw.collectOne (key, value) = textKey.fill raw value) ∨
      raw.collectOne (key, value) = raw := by
  generalize hround : raw.collectOne (key, value) = round
  simp only [RawRequestHeaders.collectOne] at hround
  split_ifs at hround with hmethod hempty hpath hacceptEncoding hifNoneMatch hifModifiedSince
    hifMatch hifUnmodifiedSince hifRange hrange
  all_goals subst hround
  · exact Or.inl ⟨hmethod, _, rfl⟩
  · exact Or.inr (Or.inr rfl)
  · exact Or.inr (Or.inl ⟨.path, hpath, rfl⟩)
  · exact Or.inr (Or.inl ⟨.acceptEncoding, hacceptEncoding, rfl⟩)
  · exact Or.inr (Or.inl ⟨.ifNoneMatch, hifNoneMatch, rfl⟩)
  · exact Or.inr (Or.inl ⟨.ifModifiedSince, hifModifiedSince, rfl⟩)
  · exact Or.inr (Or.inl ⟨.ifMatch, hifMatch, rfl⟩)
  · exact Or.inr (Or.inl ⟨.ifUnmodifiedSince, hifUnmodifiedSince, rfl⟩)
  · exact Or.inr (Or.inl ⟨.ifRange, hifRange, rfl⟩)
  · exact Or.inr (Or.inl ⟨.range, hrange, rfl⟩)
  · exact Or.inr (Or.inr rfl)

theorem slot_fill_other {textKey other : TextKey} (h : other ≠ textKey) :
    textKey.slot (other.fill raw value) = textKey.slot raw := by
  cases textKey <;> cases other <;> first | rfl | exact absurd rfl h

/-- The other slots stay as they are. -/
theorem collectOne_slot_other {textKey : TextKey} (h : key ≠ asBytes textKey.name) :
    textKey.slot (raw.collectOne (key, value)) = textKey.slot raw := by
  rcases collectOne_cases raw key value with ⟨-, method, heq⟩ | ⟨other, hkey, heq⟩ | heq
  · rw [heq]
    cases textKey <;> rfl
  · rw [heq]
    apply slot_fill_other
    rintro rfl
    exact h hkey
  · rw [heq]

/-- The method stays as it is under the other keys. -/
theorem collectOne_method_other (h : key ≠ asBytes ":method") :
    (raw.collectOne (key, value)).method = raw.method := by
  rcases collectOne_cases raw key value with ⟨hkey, -⟩ | ⟨other, -, heq⟩ | heq
  · exact absurd hkey h
  · rw [heq]
    cases other <;> rfl
  · rw [heq]

theorem slots_ext (hmethod : raw.method = raw'.method)
    (hslots : ∀ textKey : TextKey, textKey.slot raw = textKey.slot raw') : raw = raw' := by
  obtain ⟨method, path, acceptEncoding, ifNoneMatch, ifModifiedSince, ifMatch,
    ifUnmodifiedSince, ifRange, range⟩ := raw
  obtain rfl : method = raw'.method := hmethod
  obtain rfl : path = raw'.path := hslots .path
  obtain rfl : acceptEncoding = raw'.acceptEncoding := hslots .acceptEncoding
  obtain rfl : ifNoneMatch = raw'.ifNoneMatch := hslots .ifNoneMatch
  obtain rfl : ifModifiedSince = raw'.ifModifiedSince := hslots .ifModifiedSince
  obtain rfl : ifMatch = raw'.ifMatch := hslots .ifMatch
  obtain rfl : ifUnmodifiedSince = raw'.ifUnmodifiedSince := hslots .ifUnmodifiedSince
  obtain rfl : ifRange = raw'.ifRange := hslots .ifRange
  obtain rfl : range = raw'.range := hslots .range
  rfl

/-! ## The whole pass -/

theorem valuesOf_cons_same (value : Bytes) :
    valuesOf name ((asBytes name, value) :: headers) = value :: valuesOf name headers := by
  simp [valuesOf]

theorem valuesOf_cons_other (h : key ≠ asBytes name) :
    valuesOf name ((key, value) :: headers) = valuesOf name headers := by
  simp [valuesOf, h]

theorem or_findSome? {β : Type} (f : Bytes → Option β) (slot : Option β) (values : List Bytes) :
    (slot.or (f value)).or (values.findSome? f) = slot.or ((value :: values).findSome? f) := by
  rw [Option.or_assoc, List.findSome?_cons]
  cases f value <;> rfl

/-- A slot holds the first value that is not empty. -/
theorem foldl_slot (textKey : TextKey) (headers : List (Bytes × Bytes)) :
    textKey.slot (headers.foldl RawRequestHeaders.collectOne raw) =
      (textKey.slot raw).or ((valuesOf textKey.name headers).findSome? textValue) := by
  induction headers generalizing raw with
  | nil => exact Option.or_none.symm
  | cons header headers ih =>
      obtain ⟨key, value⟩ := header
      rw [List.foldl_cons, ih]
      by_cases hkey : key = asBytes textKey.name
      · rw [hkey, collectOne_slot, valuesOf_cons_same, or_findSome?]
      · rw [collectOne_slot_other hkey, valuesOf_cons_other hkey]

/-- The method is the first one that can be parsed. -/
theorem foldl_method (headers : List (Bytes × Bytes)) :
    (headers.foldl RawRequestHeaders.collectOne raw).method =
      raw.method.or ((valuesOf ":method" headers).findSome? methodFromBytes) := by
  induction headers generalizing raw with
  | nil => exact Option.or_none.symm
  | cons header headers ih =>
      obtain ⟨key, value⟩ := header
      rw [List.foldl_cons, ih]
      by_cases hkey : key = asBytes ":method"
      · rw [hkey, collectOne_method, valuesOf_cons_same, or_findSome?]
      · rw [collectOne_method_other hkey, valuesOf_cons_other hkey]

end Slots

/-! ## The lookup of each key -/

/-- The value of the first pair with the name, unless it is empty. -/
def lookupText (headers : List (Bytes × Bytes)) (name : String) : Option String :=
  (valuesOf name headers).head?.bind textValue

/-- The headers as they are looked up key by key. -/
def RawRequestHeaders.perKey (headers : List (Bytes × Bytes)) : RawRequestHeaders where
  method := (valuesOf ":method" headers).head?.bind methodFromBytes
  path := lookupText headers ":path"
  acceptEncoding := lookupText headers "accept-encoding"
  ifNoneMatch := lookupText headers "if-none-match"
  ifModifiedSince := lookupText headers "if-modified-since"
  ifMatch := lookupText headers "if-match"
  ifUnmodifiedSince := lookupText headers "if-unmodified-since"
  ifRange := lookupText headers "if-range"
  range := lookupText headers "range"

/-- The first value is not usable, and a later one is. -/
def Skips (usable : Bytes → Prop) (values : List Bytes) : Prop :=
  ∃ first rest, values = first :: rest ∧ ¬usable first ∧ ∃ value ∈ rest, usable value

theorem findSome?_eq_first {β : Type} (f : Bytes → Option β) (values : List Bytes) :
    values.findSome? f = values.head?.bind f ↔ ¬Skips (fun value => f value ≠ none) values := by
  cases values with
  | nil => exact iff_of_true rfl fun ⟨_, _, h, _⟩ => nomatch h
  | cons first rest =>
      rw [List.findSome?_cons, List.head?_cons, Option.bind_some]
      cases hfirst : f first with
      | some result =>
          apply iff_of_true rfl
          rintro ⟨first', rest', h, hunusable, -⟩
          obtain ⟨rfl, rfl⟩ := List.cons.inj h
          exact hunusable fun hnone => nomatch hfirst.symm.trans hnone
      | none =>
          rw [List.findSome?_eq_none_iff]
          constructor
          · rintro hnone ⟨first', rest', h, -, value, hvalue, husable⟩
            obtain ⟨rfl, rfl⟩ := List.cons.inj h
            exact husable (hnone value hvalue)
          · intro hskips value hvalue
            by_contra husable
            exact hskips ⟨first, rest, rfl, fun h => h hfirst, value, hvalue, husable⟩

theorem perKey_slot (textKey : TextKey) (headers : List (Bytes × Bytes)) :
    textKey.slot (RawRequestHeaders.perKey headers) =
      (valuesOf textKey.name headers).head?.bind textValue := by
  cases textKey <;> rfl

theorem textValue_usable :
    (fun value => textValue value ≠ none) = fun value : Bytes => value ≠ [] := by
  funext value
  cases value <;> simp [textValue]

/-- The pass finds what the lookups find, unless a key has a first value that its slot
cannot take and a later one that it can. -/
theorem collect_perKey_iff (headers : List (Bytes × Bytes)) :
    RawRequestHeaders.collect headers = RawRequestHeaders.perKey headers ↔
      ¬Skips (fun value => methodFromBytes value ≠ none) (valuesOf ":method" headers) ∧
        ∀ textKey : TextKey, ¬Skips (fun value => value ≠ []) (valuesOf textKey.name headers) := by
  have hmethod : (RawRequestHeaders.collect headers).method =
      (valuesOf ":method" headers).findSome? methodFromBytes :=
    (foldl_method headers).trans (Option.none_or)
  have hslot : ∀ textKey : TextKey, textKey.slot (RawRequestHeaders.collect headers) =
      (valuesOf textKey.name headers).findSome? textValue := by
    intro textKey
    have hdefault : textKey.slot RawRequestHeaders.default = none := by cases textKey <;> rfl
    rw [RawRequestHeaders.collect, foldl_slot, hdefault, Option.none_or]
  rw [← textValue_usable, ← findSome?_eq_first]
  simp only [← findSome?_eq_first]
  constructor
  · intro h
    refine ⟨by rw [← hmethod, h]; rfl, ?_⟩
    intro textKey
    rw [← hslot, h, perKey_slot]
  · rintro ⟨hfirstMethod, hfirst⟩
    apply slots_ext
    · rw [hmethod, hfirstMethod]
      rfl
    · intro textKey
      rw [hslot, hfirst, perKey_slot]

/-- An empty `range` header in front of another one does not hide it. -/
theorem collect_skips_empty :
    (RawRequestHeaders.perKey
        [(asBytes "range", []), (asBytes "range", asBytes "bytes=0-0")]).range = none ∧
      (RawRequestHeaders.collect
        [(asBytes "range", []), (asBytes "range", asBytes "bytes=0-0")]).range =
          some "bytes=0-0" := by
  decide

end EnvoyFiles.Filter
