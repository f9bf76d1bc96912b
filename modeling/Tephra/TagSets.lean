import Tephra.EventRoundTrip

/-!
# Tag sets

A tag list is stored sorted, so that two lists of the same tags are encoded to the same bytes.

* `validatedTagSet_perm` : what is stored does not depend on the order of the tags.
* `TagsRejected`, `Canonical` : when a tag list is rejected, and what is stored otherwise.
* `tag_sets_encode_identically` : both for events and for query items, down to the bytes of a
  request.
-/

namespace Tephra

/-- A tag is not accepted, or two are equal. -/
def TagsRejected (tags : List JsString) : Prop :=
  (∃ tag ∈ tags, ∃ err, validateName tag "tag" = .error err) ∨
    ∃ i j, i < j ∧ j < tags.length ∧ tags[i]? = tags[j]?

/-- The stored tags are the strictly increasing permutation of those given. -/
def Canonical (tags stored : List JsString) : Prop :=
  ∀ out, out = stored ↔ out.Pairwise (· < ·) ∧ out.Perm tags

/-- Two calls throw both, or return values of which `same` holds. -/
def Agree {α : Type} (r r' : Except Err α) (same : α → α → Prop) : Prop :=
  (∃ err, r = .error err) ∧ (∃ err, r' = .error err) ∨
    ∃ a a', r = .ok a ∧ r' = .ok a' ∧ same a a'

/-! ### Requests with a query -/

/-- A query with an item between others. -/
def queryWith (before : List QueryItem) (item : QueryItem) (after : List QueryItem) : Query where
  matchAll := false
  items := before ++ item :: after

/-- How a query is used in a request. -/
inductive QueryUse
  | read (after : ℤ) (limit : Option ℤ) (reverse : Bool)
  | subscribe (after : ℤ)
  /-- As `failIfEventsMatch` of an append. -/
  | appendMatch (events : List Event) (after : ℤ) (failIfExists : Option Query)
  /-- As `failIfExists` of an append. -/
  | appendExists (events : List Event) (failIfEventsMatch : Query) (after : ℤ)

/-- The request with a query in it. -/
def QueryUse.request (requestId : ℤ) (query : Query) : QueryUse → WireRequest
  | read after limit reverse =>
    { requestId := requestId
      kind := .read
        { query := queryToWire query, after := after, limit := limit, reverse := reverse } }
  | subscribe after =>
    { requestId := requestId
      kind := .subscribe { query := queryToWire query, after := after } }
  | appendMatch events after failIfExists =>
    { requestId := requestId
      kind := .append
        { events := events.map eventToWire
          condition := some (conditionToWire (.create query after failIfExists)) } }
  | appendExists events failIfEventsMatch after =>
    { requestId := requestId
      kind := .append
        { events := events.map eventToWire
          condition := some (conditionToWire (.create failIfEventsMatch after (some query))) } }

/-! ### Sorted tags -/

theorem eq_of_increasing {out out' : List JsString} (h : out.Pairwise (· < ·))
    (h' : out'.Pairwise (· < ·)) (hperm : out.Perm out') : out = out' :=
  hperm.eq_of_pairwise (fun _ _ _ _ hlt hgt => absurd hgt (List.lt_asymm hlt)) h h'

/-- Sorting tags that are all different makes them strictly increasing. -/
theorem increasing_insertionSort {tags : List JsString} (h : tags.Nodup) :
    (tags.insertionSort (· ≤ ·)).Pairwise (· < ·) := by
  have hsorted := List.pairwise_insertionSort (· ≤ ·) tags
  have hnodup := (List.perm_insertionSort (· ≤ ·) tags).nodup_iff.2 h
  refine (hsorted.and hnodup).imp fun {a b} hab => ?_
  exact List.not_le.1 fun hba => hab.2 (List.le_antisymm hab.1 hba)

theorem canonical_insertionSort {tags : List JsString} (h : tags.Nodup) :
    Canonical tags (tags.insertionSort (· ≤ ·)) := by
  intro out
  have hincreasing := increasing_insertionSort h
  have hperm := List.perm_insertionSort (· ≤ ·) tags
  constructor
  · rintro rfl
    exact ⟨hincreasing, hperm⟩
  · rintro ⟨hout, hout'⟩
    exact eq_of_increasing hout hincreasing (hout'.trans hperm.symm)

theorem throws_iff {α : Type} {r : Except Err α} : (∃ err, r = .error err) ↔ ¬∃ a, r = .ok a := by
  cases r <;> simp

theorem validateName_error_iff {name : JsString} {what : String} :
    (∃ err, validateName name what = .error err) ↔ ¬ValidName name := by
  rw [throws_iff, ← validateName_eq_ok]
  exact not_congr ⟨fun ⟨(), h⟩ => h, fun h => ⟨(), h⟩⟩

theorem tagsRejected_iff {tags : List JsString} :
    TagsRejected tags ↔ ¬((∀ tag ∈ tags, ValidName tag) ∧ tags.Nodup) := by
  rw [TagsRejected, List.nodup_iff_getElem?_ne_getElem?, not_and_or]
  simp only [validateName_error_iff, not_forall, exists_prop, ne_eq, not_not]

/-- What is stored does not depend on the order of the tags. -/
theorem validatedTagSet_perm {tags tags' out : List JsString} (h : tags.Perm tags') :
    validatedTagSet tags = .ok out ↔ validatedTagSet tags' = .ok out := by
  rw [validatedTagSet_eq_ok, validatedTagSet_eq_ok]
  have hvalid : ((∀ tag ∈ tags, ValidName tag) ∧ tags.Nodup) ↔
      ((∀ tag ∈ tags', ValidName tag) ∧ tags'.Nodup) := by
    simp only [h.mem_iff, h.nodup_iff]
  rw [hvalid]
  refine and_congr_right fun hvalid' => ?_
  have hsort : tags.insertionSort (· ≤ ·) = tags'.insertionSort (· ≤ ·) :=
    (canonical_insertionSort hvalid'.2 _).2
      ⟨increasing_insertionSort (h.nodup_iff.2 hvalid'.2),
        (List.perm_insertionSort _ tags).trans h⟩
  rw [hsort]

/-- Calls that accept the same things with the same result agree. -/
theorem agree_of_iff {α : Type} {r r' : Except Err α} {same : α → α → Prop}
    (h : ∀ a, r = .ok a ↔ r' = .ok a) (hsame : ∀ a, same a a) : Agree r r' same := by
  cases hr : r with
  | ok a => exact .inr ⟨a, a, rfl, (h a).1 hr, hsame a⟩
  | error err =>
    refine .inl ⟨⟨err, rfl⟩, ?_⟩
    cases hr' : r' with
    | ok a => cases hr.symm.trans ((h a).2 hr')
    | error err' => exact ⟨err', rfl⟩

theorem Event.create_perm {type : JsString} {tags tags' : List JsString} {payload : Bytes}
    (h : tags.Perm tags') (e : Event) :
    Event.create type tags payload = .ok e ↔ Event.create type tags' payload = .ok e := by
  simp only [Event.create, bind_eq_ok, validatedTagSet_perm h]

theorem QueryItem.of_perm {types tags tags' : List JsString} (h : tags.Perm tags')
    (item : QueryItem) :
    QueryItem.of types tags = .ok item ↔ QueryItem.of types tags' = .ok item := by
  simp only [QueryItem.of, bind_eq_ok, validatedTagSet_perm h]

/-- **Identical tag sets encode identically.** -/
theorem tag_sets_encode_identically [TextCodec] (tags : List JsString) :
    (∀ type payload,
      ((∃ err, Event.create type tags payload = .error err) ↔
        (∃ err, validateName type "event type" = .error err) ∨ TagsRejected tags) ∧
      (∀ e, Event.create type tags payload = .ok e →
        e.type = type ∧ Canonical tags e.tags ∧ e.payload = payload) ∧
      ∀ tags' : List JsString, tags.Perm tags' →
        Agree (Event.create type tags payload) (Event.create type tags' payload) fun e e' =>
          ∀ requestId before after condition,
            encodeRequest (appendWith requestId before e after condition) =
              encodeRequest (appendWith requestId before e' after condition)) ∧
    ∀ types,
      ((∃ err, QueryItem.of types tags = .error err) ↔
        (∃ type ∈ types, ∃ err, validateName type "event type" = .error err) ∨
          TagsRejected tags) ∧
      (∀ item, QueryItem.of types tags = .ok item →
        item.types = types ∧ Canonical tags item.tags) ∧
      ∀ tags' : List JsString, tags.Perm tags' →
        Agree (QueryItem.of types tags) (QueryItem.of types tags') fun item item' =>
          ∀ (role : QueryUse) requestId before after,
            encodeRequest (role.request requestId (queryWith before item after)) =
              encodeRequest (role.request requestId (queryWith before item' after)) := by
  refine ⟨fun type payload => ⟨?_, ?_, ?_⟩, fun types => ⟨?_, ?_, ?_⟩⟩
  · rw [throws_iff, Event.exists_create, not_and_or, validateName_error_iff, tagsRejected_iff]
  · intro e he
    obtain ⟨-, hvalid, rfl⟩ := Event.create_eq_ok.1 he
    exact ⟨rfl, canonical_insertionSort hvalid.2, rfl⟩
  · intro tags' h
    exact agree_of_iff (Event.create_perm h) fun _ _ _ _ _ => rfl
  · rw [throws_iff, QueryItem.exists_of, not_and_or, tagsRejected_iff]
    simp only [validateName_error_iff, not_forall, exists_prop]
  · intro item hitem
    obtain ⟨-, hvalid, rfl⟩ := QueryItem.of_eq_ok.1 hitem
    exact ⟨rfl, canonical_insertionSort hvalid.2⟩
  · intro tags' h
    exact agree_of_iff (QueryItem.of_perm h) fun _ _ _ _ _ => rfl

/-- Two tags, given in either order, are stored in the same one. -/
theorem tag_sets_two :
    Agree (Event.create (js "order") [js "b", js "a"] [1])
      (Event.create (js "order") [js "a", js "b"] [1]) (fun e e' =>
        ∀ requestId before after condition,
          @encodeRequest utf8Codec (appendWith requestId before e after condition) =
            @encodeRequest utf8Codec (appendWith requestId before e' after condition)) ∧
      (∃ e, Event.create (js "order") [js "b", js "a"] [1] = .ok e) := by
  have h := (@tag_sets_encode_identically utf8Codec [js "b", js "a"]).1 (js "order") [1]
  exact ⟨h.2.2 _ (List.Perm.swap _ _ _), ⟨_, rfl⟩⟩

end Tephra
