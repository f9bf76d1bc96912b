import Tephra.Errors

/-!
# Public values

`types.ts`: events, queries and append conditions as a caller builds them, with the validation of
names and tag sets.

* `validateName_eq_ok` : which names are accepted.
* `validatedTagSet_eq_ok` : which tag lists are accepted, and that the result is the same tags in
  another order.
-/

namespace Tephra

/-- `ZERO`. -/
def Position.zero : ℤ := 0

/-- `MAX`. -/
def Position.max : ℤ := 0xffffffffffffffff

/-- `MAX_NAME_LEN`. -/
def maxNameLen : ℕ := 65535

/-! ### Names -/

/-- `code >= 0xd800 && code <= 0xdbff`. -/
def isHighSurrogate (code : UInt16) : Bool := 0xd800 ≤ code && code ≤ 0xdbff

/-- The bytes the loop of `utf8ByteLength` counts for the code unit it is at. -/
def unitByteLength (code : UInt16) : ℕ :=
  if code < 0x80 then 1 else if code < 0x800 then 2 else if isHighSurrogate code then 4 else 3

/-- `utf8ByteLength`.  After a high surrogate the loop passes over one code unit, whatever it is. -/
def utf8ByteLength : JsString → ℕ
  | [] => 0
  | [code] => unitByteLength code
  | code :: next :: rest =>
    if isHighSurrogate code then unitByteLength code + utf8ByteLength rest
    else unitByteLength code + utf8ByteLength (next :: rest)

/-- `validateName`. -/
def validateName (value : JsString) (what : String) : Except Err Unit :=
  if value.length = 0 then throw (.validation (js s!"{what} must not be empty"))
  else
    let len := utf8ByteLength value
    if len > maxNameLen then
      throw (.validation (js s!"{what} is {len} bytes, exceeding the {maxNameLen}-byte maximum"))
    else pure ()

/-! ### `JSON.stringify` of a string -/

/-- A hexadecimal digit. -/
def hexDigit (n : ℕ) : UInt16 := UInt16.ofNat (if n < 10 then 0x30 + n else 0x57 + n)

/-- `\uXXXX`. -/
def unicodeEscape (code : UInt16) : JsString :=
  [0x5c, 0x75, hexDigit (code.toNat / 0x1000), hexDigit (code.toNat / 0x100 % 0x10),
    hexDigit (code.toNat / 0x10 % 0x10), hexDigit (code.toNat % 0x10)]

/-- A code unit outside a surrogate pair. -/
def quoteUnit (code : UInt16) : JsString :=
  if code = 0x08 then [0x5c, 0x62]
  else if code = 0x09 then [0x5c, 0x74]
  else if code = 0x0a then [0x5c, 0x6e]
  else if code = 0x0c then [0x5c, 0x66]
  else if code = 0x0d then [0x5c, 0x72]
  else if code = 0x22 ∨ code = 0x5c then [0x5c, code]
  else if code < 0x20 ∨ 0xd800 ≤ code ∧ code ≤ 0xdfff then unicodeEscape code
  else [code]

/-- The characters between the quotes.  A surrogate is escaped unless it is part of a pair. -/
def quoteUnits : JsString → JsString
  | [] => []
  | [code] => quoteUnit code
  | code :: next :: rest =>
    if isHighSurrogate code && (0xdc00 ≤ next && next ≤ 0xdfff) then
      code :: next :: quoteUnits rest
    else quoteUnit code ++ quoteUnits (next :: rest)

/-- `JSON.stringify`, of a string. -/
def jsonStringify (value : JsString) : JsString := [0x22] ++ quoteUnits value ++ [0x22]

/-! ### Tag sets -/

/-- The loop that looks for `out[i] === out[i - 1]`. -/
def duplicate? : List JsString → Option JsString
  | a :: b :: rest => if b = a then some b else duplicate? (b :: rest)
  | _ => none

/-- `validatedTagSet`. -/
def validatedTagSet (tags : List JsString) : Except Err (List JsString) := do
  tags.forM fun tag => validateName tag "tag"
  -- strings compare by their code units
  let out := tags.insertionSort (· ≤ ·)
  match duplicate? out with
  | some tag => throw (.validation (js "duplicate tag " ++ jsonStringify tag))
  | none => return out

/-- `validatedTypes`. -/
def validatedTypes (types : List JsString) : Except Err (List JsString) := do
  types.forM fun type => validateName type "event type"
  return types

/-! ### Events -/

/-- `Event`. -/
structure Event where
  type : JsString
  tags : List JsString
  payload : Bytes
  deriving DecidableEq, Repr

/-- `Event.create`. -/
def Event.create (type : JsString) (tags : List JsString) (payload : Bytes) : Except Err Event := do
  validateName type "event type"
  return { type := type, tags := ← validatedTagSet tags, payload := payload }

/-- `Event.fromServer`: the fields are taken as they are. -/
def Event.fromServer (type : JsString) (tags : List JsString) (payload : Bytes) : Event :=
  { type := type, tags := tags, payload := payload }

/-- `SequencedEvent`. -/
structure SequencedEvent where
  position : ℤ
  event : Event
  deriving DecidableEq, Repr

/-- `SubEvent`. -/
inductive SubEvent
  | event (event : SequencedEvent)
  | caughtUp (watermark : ℤ)
  deriving DecidableEq, Repr

/-! ### Queries and conditions -/

/-- `QueryItem`. -/
structure QueryItem where
  types : List JsString
  tags : List JsString
  deriving DecidableEq, Repr

/-- `QueryItem.of`. -/
def QueryItem.of (types tags : List JsString) : Except Err QueryItem := do
  return { types := ← validatedTypes types, tags := ← validatedTagSet tags }

/-- `QueryItem.ofTypes`. -/
def QueryItem.ofTypes (types : List JsString) : Except Err QueryItem := QueryItem.of types []

/-- `QueryItem.withTags`. -/
def QueryItem.withTags (tags : List JsString) : Except Err QueryItem := QueryItem.of [] tags

/-- `Query`. -/
structure Query where
  matchAll : Bool
  items : List QueryItem
  deriving DecidableEq, Repr

/-- `Query.all`. -/
def Query.all : Query := { matchAll := true, items := [] }

/-- `Query.items`. -/
def Query.ofItems (items : List QueryItem) : Query := { matchAll := false, items := items }

/-- `AppendCondition`. -/
structure AppendCondition where
  failIfEventsMatch : Query
  after : ℤ
  failIfExists : Option Query
  deriving DecidableEq, Repr

/-- `AppendCondition.create`. -/
def AppendCondition.create (failIfEventsMatch : Query) (after : ℤ) (failIfExists : Option Query) :
    AppendCondition :=
  { failIfEventsMatch := failIfEventsMatch, after := after, failIfExists := failIfExists }

/-- `AppendCondition.existsOnly`. -/
def AppendCondition.existsOnly (failIfExists : Query) : AppendCondition :=
  { failIfEventsMatch := Query.ofItems [], after := Position.zero
    failIfExists := some failIfExists }

/-! ### What is accepted -/

/-- A name is accepted when it is not empty and not counted as too long. -/
def ValidName (value : JsString) : Prop := value ≠ [] ∧ utf8ByteLength value ≤ maxNameLen

instance (value : JsString) : Decidable (ValidName value) := inferInstanceAs (Decidable (_ ∧ _))

theorem validateName_eq_ok {value : JsString} {what : String} :
    validateName value what = .ok () ↔ ValidName value := by
  rw [validateName, ValidName]
  by_cases hnil : value = []
  · rw [if_pos (by rw [hnil]; rfl)]
    exact iff_of_false (by intro h; cases h) fun h => h.1 hnil
  · rw [if_neg fun h => hnil (List.length_eq_zero_iff.1 h)]
    by_cases hlen : utf8ByteLength value > maxNameLen
    · simp only [if_pos hlen]
      exact iff_of_false (by intro h; cases h) fun h => Nat.not_lt.2 h.2 hlen
    · simp only [if_neg hlen]
      exact iff_of_true rfl ⟨hnil, Nat.not_lt.1 hlen⟩

theorem forM_validateName {names : List JsString} {what : String} :
    (names.forM fun name => validateName name what) = .ok () ↔ ∀ name ∈ names, ValidName name := by
  induction names with
  | nil => simp
  | cons name names ih =>
    have hstep : ((name :: names).forM fun name => validateName name what) =
        (validateName name what >>= fun _ => names.forM fun name => validateName name what) := rfl
    rw [hstep, bind_eq_ok, List.forall_mem_cons]
    constructor
    · rintro ⟨_, hname, hnames⟩
      exact ⟨validateName_eq_ok.1 hname, ih.1 hnames⟩
    · rintro ⟨hname, hnames⟩
      exact ⟨(), validateName_eq_ok.2 hname, ih.2 hnames⟩

theorem duplicate?_eq_none {tags : List JsString} (hsorted : tags.Pairwise (· ≤ ·)) :
    duplicate? tags = none ↔ tags.Nodup := by
  fun_induction duplicate? tags with
  | case1 a rest =>
    refine iff_of_false (by intro h; cases h) ?_
    intro hnodup
    exact (List.nodup_cons.1 hnodup).1 List.mem_cons_self
  | case2 a b rest hne ih =>
    obtain ⟨ha, hrest⟩ := List.pairwise_cons.1 hsorted
    rw [ih hrest, List.nodup_cons (a := a)]
    refine ⟨fun h => ⟨fun hmem => ?_, h⟩, And.right⟩
    -- what equals `a` further on is also below `b`, and so `b` equals `a`
    rcases List.mem_cons.1 hmem with rfl | hmem
    · exact hne rfl
    · have hba : b ≤ a := (List.pairwise_cons.1 hrest).1 a hmem
      exact hne (List.le_antisymm hba (ha b List.mem_cons_self))
  | case3 tags hshort =>
    refine iff_of_true rfl ?_
    rcases tags with - | ⟨a, - | ⟨b, rest⟩⟩
    · exact List.nodup_nil
    · exact List.nodup_singleton a
    · exact absurd rfl (hshort a b rest)

instance : Std.Total fun s t : JsString => s ≤ t := ⟨List.le_total⟩

instance : IsTrans JsString fun s t => s ≤ t := ⟨fun _ _ _ => List.le_trans⟩

/-- A tag list is accepted when its names are and no two are equal; what is returned holds the same
tags. -/
theorem validatedTagSet_eq_ok {tags out : List JsString} :
    validatedTagSet tags = .ok out ↔
      ((∀ tag ∈ tags, ValidName tag) ∧ tags.Nodup) ∧ out = tags.insertionSort (· ≤ ·) := by
  have hperm := List.perm_insertionSort (· ≤ ·) tags
  have hdup := duplicate?_eq_none (List.pairwise_insertionSort (· ≤ ·) tags)
  rw [hperm.nodup_iff] at hdup
  rw [validatedTagSet, bind_eq_ok]
  constructor
  · rintro ⟨_, hnames, hout⟩
    simp only at hout
    cases hd : duplicate? (tags.insertionSort (· ≤ ·)) with
    | some tag => rw [hd] at hout; cases hout
    | none =>
      rw [hd] at hout
      cases hout
      exact ⟨⟨forM_validateName.1 hnames, hdup.1 hd⟩, rfl⟩
  · rintro ⟨⟨hnames, hnodup⟩, rfl⟩
    refine ⟨(), forM_validateName.2 hnames, ?_⟩
    simp only [hdup.2 hnodup, pure_eq_ok]

theorem validatedTypes_eq_ok {types out : List JsString} :
    validatedTypes types = .ok out ↔ (∀ type ∈ types, ValidName type) ∧ out = types := by
  rw [validatedTypes, bind_eq_ok]
  constructor
  · rintro ⟨_, hnames, hout⟩
    cases hout
    exact ⟨forM_validateName.1 hnames, rfl⟩
  · rintro ⟨hnames, rfl⟩
    exact ⟨(), forM_validateName.2 hnames, rfl⟩

theorem Event.create_eq_ok {type : JsString} {tags : List JsString} {payload : Bytes} {e : Event} :
    Event.create type tags payload = .ok e ↔
      ValidName type ∧ ((∀ tag ∈ tags, ValidName tag) ∧ tags.Nodup) ∧
        e = { type := type, tags := tags.insertionSort (· ≤ ·), payload := payload } := by
  rw [Event.create, bind_eq_ok]
  constructor
  · rintro ⟨_, htype, h⟩
    obtain ⟨out, htags, h⟩ := bind_eq_ok.1 h
    obtain ⟨hvalid, rfl⟩ := validatedTagSet_eq_ok.1 htags
    cases h
    exact ⟨validateName_eq_ok.1 htype, hvalid, rfl⟩
  · rintro ⟨htype, hvalid, rfl⟩
    refine ⟨(), validateName_eq_ok.2 htype, ?_⟩
    rw [validatedTagSet_eq_ok.2 ⟨hvalid, rfl⟩]
    rfl

theorem QueryItem.of_eq_ok {types tags : List JsString} {item : QueryItem} :
    QueryItem.of types tags = .ok item ↔
      (∀ type ∈ types, ValidName type) ∧ ((∀ tag ∈ tags, ValidName tag) ∧ tags.Nodup) ∧
        item = { types := types, tags := tags.insertionSort (· ≤ ·) } := by
  rw [QueryItem.of, bind_eq_ok]
  constructor
  · rintro ⟨out, htypes, h⟩
    obtain ⟨out', htags, h⟩ := bind_eq_ok.1 h
    obtain ⟨hnames, rfl⟩ := validatedTypes_eq_ok.1 htypes
    obtain ⟨hvalid, rfl⟩ := validatedTagSet_eq_ok.1 htags
    cases h
    exact ⟨hnames, hvalid, rfl⟩
  · rintro ⟨htypes, hvalid, rfl⟩
    refine ⟨types, validatedTypes_eq_ok.2 ⟨htypes, rfl⟩, ?_⟩
    rw [validatedTagSet_eq_ok.2 ⟨hvalid, rfl⟩]
    rfl

theorem Event.exists_create {type : JsString} {tags : List JsString} {payload : Bytes} :
    (∃ e, Event.create type tags payload = .ok e) ↔
      ValidName type ∧ (∀ tag ∈ tags, ValidName tag) ∧ tags.Nodup := by
  simp only [Event.create_eq_ok, exists_and_left, exists_eq, and_true]

theorem QueryItem.exists_of {types tags : List JsString} :
    (∃ item, QueryItem.of types tags = .ok item) ↔
      (∀ type ∈ types, ValidName type) ∧ (∀ tag ∈ tags, ValidName tag) ∧ tags.Nodup := by
  simp only [QueryItem.of_eq_ok, exists_and_left, exists_eq, and_true]

theorem forall_validName_insert {name : JsString} {names₁ names₂ : List JsString}
    (h : ∀ n ∈ names₁ ++ names₂, ValidName n) :
    (∀ n ∈ names₁ ++ name :: names₂, ValidName n) ↔ ValidName name := by
  constructor
  · intro hall
    exact hall name (by simp)
  · intro hname n hn
    rcases List.mem_append.1 hn with hn | hn
    · exact h n (List.mem_append_left _ hn)
    · rcases List.mem_cons.1 hn with rfl | hn
      · exact hname
      · exact h n (List.mem_append_right _ hn)

end Tephra
