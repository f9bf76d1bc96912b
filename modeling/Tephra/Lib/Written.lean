import Tephra.Lib.Records

/-!
# Records as they are written

A tag says by itself how its record is delimited, by its last three bits, and which field it sets:
the one whose own tag it is.  `Written` is what a body means by nothing else than that; it takes a
tag with all of its bits, however many there are.  `Stands` says which tags stand at the head of a
record of a body, and `Drops` that a record with a tag that is no field's own is taken out of it.

* `Reads.written` : a reader that takes the tags that stand in a body for what they are reads what
  is written.
* `Written.yields` : and it reads all that is written.
* `Written.drops` : a record that is taken out makes no difference to what is written.
-/

namespace Lib

namespace Records

section

variable {M : Type}

/-- Ten bytes at most that are the tag `v`. -/
def Tag (tb : List UInt8) (v : ℕ) : Prop := tb.length ≤ 10 ∧ Base128.decode? tb = some (v, [])

variable (S : Schema M)

/-- The tag stands in the body: at the head of a record of a message of type `m'`, which is the body
itself or is embedded in it. -/
inductive Schema.Stands : M → List UInt8 → M → ℕ → Prop
  | head {m b v r} : Base128.decode? b = some (v, r) → Stands m b m v
  | next {m b v r r' l o m' v'} : Base128.decode? b = some (v, r) → Skips id (v % 8) r r' l o →
      Stands m r' m' v' → Stands m b m' v'
  | inside {m b v r m₁ u l r' m' v'} : Base128.decode? b = some (v, r) → S.inner m v = some m₁ →
      number? r = some (u, l, r') → Stands m₁ (r'.take u) m' v' → Stands m b m' v'

/-- A record with a tag that is no field's own is taken out. -/
inductive Schema.Drops : M → List UInt8 → List UInt8 → Prop
  | here {m v tb p b} : S.own m v = none → Tag tb v → Payload (v % 8) p →
      Drops m (tb ++ p ++ b) b
  | next {m v tb p b b'} : Tag tb v → Payload (v % 8) p → Drops m b b' →
      Drops m (tb ++ p ++ b) (tb ++ p ++ b')
  | inside {m v m' tb lb lb' p p' b} : S.inner m v = some m' → Tag tb v → Varint lb p.length →
      Varint lb' p'.length → Drops m' p p' →
      Drops m (tb ++ (lb ++ p) ++ b) (tb ++ (lb' ++ p') ++ b)

end

section

variable {M : Type} {V : M → Type} (F : Format M V)

/-- What is written in the body turns `st` into the result: a record with the own tag of a field
sets it, and any other one is passed over by the last three bits of its tag. -/
inductive Written : (m : M) → V m → List UInt8 → V m → Prop
  | done (m st) : Written m st [] st
  | varint {m st b v r n u l r' x} : Base128.decode? b = some (v, r) →
      F.own m v = some (n, .varint) → number? r = some (u, l, r') →
      Written m (F.set m st n (.varint u)) r' x → Written m st b x
  | bytes {m st b v r n u l r' x} : Base128.decode? b = some (v, r) →
      F.own m v = some (n, .bytes) → number? r = some (u, l, r') → u ≤ r'.length →
      Written m (F.set m st n (.bytes (r'.take u))) (r'.drop u) x → Written m st b x
  | message {m st b v r n m' u l r' y x} : Base128.decode? b = some (v, r) →
      F.own m v = some (n, .message m') → number? r = some (u, l, r') → u ≤ r'.length →
      Written m' (F.init m') (r'.take u) y →
      Written m (F.set m st n (.message m' y)) (r'.drop u) x → Written m st b x
  | other {m st b v r r' l o x} : Base128.decode? b = some (v, r) → F.own m v = none →
      Skips id (v % 8) r r' l o → Written m st r' x → Written m st b x

end

section

variable {M : Type}

/-- The reader takes the tag, of which it keeps 64 bits, for what it is. -/
def Tags.Takes (T : Tags M) (S : Schema M) (m : M) (v : ℕ) : Prop :=
  T.field m (v % 2 ^ 64) = S.own m v ∧ (S.own m v = none → T.wire (v % 2 ^ 64) = v % 8)

/-! ### Tags -/

theorem Tag.decode? {tb : List UInt8} {v : ℕ} (h : Tag tb v) (p b : List UInt8) :
    Base128.decode? (tb ++ p ++ b) = some (v, p ++ b) := by
  rw [List.append_assoc]
  exact Base128.decode?_append h.2 _

theorem number?_of_decode? {b r : List UInt8} {v : ℕ} (h : Base128.decode? b = some (v, r)) :
    ∃ l, number? b = some (v % 2 ^ 64, l, r) :=
  ⟨_, congrArg (Option.map _) h⟩

theorem exists_decode? {b r : List UInt8} {t : ℕ} {l : Bool} (h : number? b = some (t, l, r)) :
    ∃ v, Base128.decode? b = some (v, r) ∧ v % 2 ^ 64 = t := by
  obtain ⟨⟨v, r'⟩, hv, heq⟩ := Option.map_eq_some_iff.1 h
  cases heq
  exact ⟨v, hv, rfl⟩

theorem number_len {lb q : List UInt8} (h : Varint lb q.length) (b : List UInt8) :
    number? (lb ++ q ++ b) = some (q.length, false, q ++ b) := by
  rw [List.append_assoc]
  exact h.number? _

theorem Schema.own_eq_some {S : Schema M} {m : M} {t n : ℕ} {k : Kind M} :
    S.own m t = some (n, k) ↔ t / 8 = n ∧ S.kind m n = some k ∧ t % 8 = k.wire := by
  rw [Schema.own]
  constructor
  · intro h
    split at h
    · next k' hk =>
      split_ifs at h with hw
      cases h
      exact ⟨rfl, hk, hw⟩
    · cases h
  · rintro ⟨rfl, hk, hw⟩
    simp only [hk, hw, if_true]

theorem Schema.own_of_inner {S : Schema M} {m m' : M} {t : ℕ} (h : S.inner m t = some m') :
    S.own m t = some (t / 8, .message m') := by
  obtain ⟨hk, hw⟩ := Schema.inner_eq_some.1 h
  exact Schema.own_eq_some.2 ⟨rfl, hk, hw⟩

theorem Schema.inner_of_own {S : Schema M} {m m' : M} {t n : ℕ}
    (h : S.own m t = some (n, .message m')) : S.inner m t = some m' := by
  obtain ⟨rfl, hk, hw⟩ := Schema.own_eq_some.1 h
  exact Schema.inner_eq_some.2 ⟨hk, hw⟩

theorem Schema.inner_eq_none {S : Schema M} {m : M} {t : ℕ}
    (h : ∀ n m', S.own m t ≠ some (n, .message m')) : S.inner m t = none := by
  cases hi : S.inner m t with
  | none => rfl
  | some m' => exact absurd (Schema.own_of_inner hi) (h _ _)

end

/-! ### What stands behind a tag -/

section

variable {M : Type} {S : Schema M} {m m₁ m' : M} {n v v' u : ℕ} {k : Kind M} {l o : Bool}
variable {b r r' : List UInt8}

theorem Schema.skips_varint (hown : S.own m v = some (n, .varint))
    (hu : number? r = some (u, l, r')) : Skips id (v % 8) r r' l false := by
  rw [(Schema.own_eq_some.1 hown).2.2]
  exact .varint hu

theorem Schema.skips_len (hown : S.own m v = some (n, k)) (hk : k.wire = 2)
    (hu : number? r = some (u, l, r')) :
    Skips id (v % 8) r (r'.drop u) l (decide (r'.length < u)) := by
  rw [(Schema.own_eq_some.1 hown).2.2, hk]
  exact .len hu

theorem Schema.stands_plain (hv : Base128.decode? b = some (v, r))
    (hskip : Skips id (v % 8) r r' l o) (hi : S.inner m v = none) :
    S.Stands m b m' v' ↔ (m = m' ∧ v = v') ∨ S.Stands m r' m' v' := by
  constructor
  · intro hs
    cases hs with
    | head hv' =>
      cases hv.symm.trans hv'
      exact .inl ⟨rfl, rfl⟩
    | next hv' hskip' hs =>
      cases hv.symm.trans hv'
      obtain ⟨rfl, -, -⟩ := hskip.unique hskip'
      exact .inr hs
    | inside hv' hi' =>
      cases hv.symm.trans hv'
      cases hi.symm.trans hi'
  · rintro (⟨rfl, rfl⟩ | hs)
    · exact .head hv
    · exact .next hv hskip hs

theorem Schema.stands_message (hv : Base128.decode? b = some (v, r)) (hi : S.inner m v = some m₁)
    (hu : number? r = some (u, l, r')) :
    S.Stands m b m' v' ↔
      (m = m' ∧ v = v') ∨ S.Stands m₁ (r'.take u) m' v' ∨ S.Stands m (r'.drop u) m' v' := by
  have hskip := Schema.skips_len (Schema.own_of_inner hi) rfl hu
  constructor
  · intro hs
    cases hs with
    | head hv' =>
      cases hv.symm.trans hv'
      exact .inl ⟨rfl, rfl⟩
    | next hv' hskip' hs =>
      cases hv.symm.trans hv'
      obtain ⟨rfl, -, -⟩ := hskip.unique hskip'
      exact .inr (.inr hs)
    | inside hv' hi' hu' hs =>
      cases hv.symm.trans hv'
      cases hu.symm.trans hu'
      cases hi.symm.trans hi'
      exact .inr (.inl hs)
  · rintro (⟨rfl, rfl⟩ | hs | hs)
    · exact .head hv
    · exact .inside hv hi hu hs
    · exact .next hv hskip hs

/-- What is taken out of a body was no more than a record: the other tags stood there before. -/
theorem Schema.Drops.stands {b' : List UInt8} (hd : S.Drops m b b') (h : S.Stands m b' m' v') :
    S.Stands m b m' v' := by
  induction hd with
  | here _ htb hp =>
    exact .next (htb.decode? _ _) (hp.skips (fun _ => rfl) le_rfl _) h
  | @next m v tb p b b' htb hp _ ih =>
    have hskip : ∀ b, Skips id (v % 8) (p ++ b) b false false :=
      fun b => hp.skips (fun _ => rfl) le_rfl b
    by_cases hi : S.inner m v = none
    · rw [Schema.stands_plain (htb.decode? p b') (hskip b') hi] at h
      rw [Schema.stands_plain (htb.decode? p b) (hskip b) hi]
      exact h.imp_right ih
    · -- the record in front embeds a message, which stays
      obtain ⟨m₁, hi⟩ := Option.ne_none_iff_exists'.1 hi
      rw [(Schema.inner_eq_some.1 hi).2] at hp
      cases hp with
      | @len lb q hlb =>
        have hnum := number_len hlb
        rw [Schema.stands_message (htb.decode? _ b') hi (hnum b'), List.take_left,
          List.drop_left] at h
        rw [Schema.stands_message (htb.decode? _ b) hi (hnum b), List.take_left, List.drop_left]
        exact h.imp_right (Or.imp_right ih)
  | @inside m v m₁ tb lb lb' p p' b hi htb hlb hlb' _ ih =>
    rw [Schema.stands_message (htb.decode? _ b) hi (number_len hlb' b), List.take_left,
      List.drop_left] at h
    rw [Schema.stands_message (htb.decode? _ b) hi (number_len hlb b), List.take_left,
      List.drop_left]
    exact h.imp_right (Or.imp_left ih)

end

/-! ### Readers that take tags for what they are -/

/-- A payload is skipped alike where lengths within the limit are taken alike. -/
theorem Skips.congr {size size' : ℕ → ℕ} {limit w : ℕ} {r r' : List UInt8} {l o : Bool}
    (h : Skips size w r r' l o)
    (hsize : ∀ {n}, size n ≤ limit ∨ size' n ≤ limit → size' n = size n) (hlen : r.length ≤ limit) :
    Skips size' w r r' l o := by
  cases h with
  | varint hv => exact .varint hv
  | fixed64 => exact .fixed64
  | @len r v l q hv =>
    have hq := length_of_number? hv
    by_cases hle : size v ≤ limit ∨ size' v ≤ limit
    · rw [← hsize hle]
      exact .len hv
    · -- both lengths lead past the end
      have hs : Skips size' 2 r _ l _ := .len hv
      rw [List.drop_eq_nil_of_le (by omega), decide_eq_true (by omega)] at hs ⊢
      exact hs
  | fixed32 => exact .fixed32

section

variable {M : Type} {V : M → Type} {F : Format M V} {T : Tags M} {limit : ℕ} {m : M}
variable {st x : V m} {b : List UInt8} {tr : List (Met M)}

/-- **A reader that takes the tags that stand in a body for what they are reads what is written.**
It need not be said of those it does not meet, and it meets all of them. -/
theorem Reads.written (h : Reads F T m st b x tr)
    (hsize : ∀ {n}, n ≤ limit ∨ T.size n ≤ limit → T.size n = n) (hlen : b.length ≤ limit)
    (hT : ∀ e ∈ tr, ∀ v, F.Stands m b e.message v → e.tag = v % 2 ^ 64 →
      T.Takes F.toSchema e.message v) :
    Written F m st b x ∧ ∀ m' v, F.Stands m b m' v →
      ∃ e ∈ tr, e.message = m' ∧ e.tag = v % 2 ^ 64 := by
  induction h with
  | done m st =>
    refine ⟨.done m st, fun m' v hs => ?_⟩
    cases hs with
    | head hv | next hv | inside hv => cases hv
  | varint ht hfield hu _ ih =>
    rw [List.forall_mem_cons] at hT
    have := length_of_number? ht
    have := length_of_number? hu
    obtain ⟨v, hv, rfl⟩ := exists_decode? ht
    have hown := (hT.1 v (.head hv) rfl).1.symm.trans hfield
    have hskip := Schema.skips_varint hown hu
    have hi := Schema.inner_eq_none fun n m' h => by cases hown.symm.trans h
    obtain ⟨hwritten, hmet⟩ := ih (by omega) fun e he v' hs => hT.2 e he v' (.next hv hskip hs)
    refine ⟨.varint hv hown hu hwritten, fun m' v' hs => ?_⟩
    rw [List.exists_mem_cons_iff]
    rcases (Schema.stands_plain hv hskip hi).1 hs with ⟨rfl, rfl⟩ | hs
    · exact .inl ⟨rfl, rfl⟩
    · exact .inr (hmet m' v' hs)
  | @bytes m st b t l r n u l' r' x tr ht hfield hu hle _ ih =>
    rw [List.forall_mem_cons] at hT
    have := length_of_number? ht
    have := length_of_number? hu
    obtain ⟨v, hv, rfl⟩ := exists_decode? ht
    have hown := (hT.1 v (.head hv) rfl).1.symm.trans hfield
    have hskip := Schema.skips_len hown rfl hu
    have hi := Schema.inner_eq_none fun n m' h => by cases hown.symm.trans h
    have hsu : T.size u = u := hsize (.inr (by omega))
    rw [hsu] at hle ih
    obtain ⟨hwritten, hmet⟩ := ih (by rw [List.length_drop]; omega)
      fun e he v' hs => hT.2 e he v' (.next hv hskip hs)
    refine ⟨.bytes hv hown hu hle hwritten, fun m' v' hs => ?_⟩
    rw [List.exists_mem_cons_iff]
    rcases (Schema.stands_plain hv hskip hi).1 hs with ⟨rfl, rfl⟩ | hs
    · exact .inl ⟨rfl, rfl⟩
    · exact .inr (hmet m' v' hs)
  | @message m st b t l r n m₁ u l' r' y tr' x tr ht hfield hu hle _ _ ihp ih =>
    rw [List.forall_mem_cons, List.forall_mem_append] at hT
    have := length_of_number? ht
    have := length_of_number? hu
    obtain ⟨v, hv, rfl⟩ := exists_decode? ht
    have hown := (hT.1 v (.head hv) rfl).1.symm.trans hfield
    have hskip := Schema.skips_len hown rfl hu
    have hi := Schema.inner_of_own hown
    have hsu : T.size u = u := hsize (.inr (by omega))
    rw [hsu] at hle ihp ih
    obtain ⟨hinner, hmetp⟩ := ihp (by rw [List.length_take]; omega)
      fun e he v' hs => hT.2.1 e he v' (.inside hv hi hu hs)
    obtain ⟨hwritten, hmet⟩ := ih (by rw [List.length_drop]; omega)
      fun e he v' hs => hT.2.2 e he v' (.next hv hskip hs)
    refine ⟨.message hv hown hu hle hinner hwritten, fun m' v' hs => ?_⟩
    rw [List.exists_mem_cons_iff]
    rcases (Schema.stands_message hv hi hu).1 hs with ⟨rfl, rfl⟩ | hs | hs
    · exact .inl ⟨rfl, rfl⟩
    · obtain ⟨e, he, hmessage⟩ := hmetp m' v' hs
      exact .inr ⟨e, List.mem_append_left _ he, hmessage⟩
    · obtain ⟨e, he, hmessage⟩ := hmet m' v' hs
      exact .inr ⟨e, List.mem_append_right _ he, hmessage⟩
  -- the reader skips by its own wire type, which is the one in the tag
  | skip ht hfield hskip _ ih =>
    rw [List.forall_mem_cons] at hT
    have := length_of_number? ht
    have := hskip.length_le
    obtain ⟨v, hv, rfl⟩ := exists_decode? ht
    obtain ⟨htake, hwire⟩ := hT.1 v (.head hv) rfl
    have hown := htake.symm.trans hfield
    have hs : Skips id _ _ _ _ _ := hskip.congr (fun hn => (hsize hn.symm).symm) (by omega)
    rw [hwire hown] at hs
    have hi := Schema.inner_eq_none fun n m' h => by cases hown.symm.trans h
    obtain ⟨hwritten, hmet⟩ := ih (by omega) fun e he v' hstands =>
      hT.2 e he v' (.next hv hs hstands)
    refine ⟨.other hv hown hs hwritten, fun m' v' hstands => ?_⟩
    rw [List.exists_mem_cons_iff]
    rcases (Schema.stands_plain hv hs hi).1 hstands with ⟨rfl, rfl⟩ | hstands
    · exact .inl ⟨rfl, rfl⟩
    · exact .inr (hmet m' v' hstands)

/-- **Such a reader reads all that is written.** -/
theorem Written.yields (h : Written F m st b x)
    (hsize : ∀ {n}, n ≤ limit ∨ T.size n ≤ limit → T.size n = n) (hlen : b.length ≤ limit)
    (hT : ∀ m' v, F.Stands m b m' v → T.Takes F.toSchema m' v) : Yields F T m st b x := by
  induction h with
  | done m st => exact ⟨_, .done m st⟩
  | varint hv hown hu _ ih =>
    obtain ⟨l, ht⟩ := number?_of_decode? hv
    have := length_of_number? ht
    have := length_of_number? hu
    obtain ⟨tr, hread⟩ := ih (by omega) fun m' v' hs =>
      hT m' v' (.next hv (Schema.skips_varint hown hu) hs)
    exact ⟨_, .varint ht ((hT _ _ (.head hv)).1.trans hown) hu hread⟩
  | @bytes m st b v r n u l r' x hv hown hu hle _ ih =>
    obtain ⟨l, ht⟩ := number?_of_decode? hv
    have := length_of_number? ht
    have := length_of_number? hu
    obtain ⟨tr, hread⟩ := ih (by rw [List.length_drop]; omega) fun m' v' hs =>
      hT m' v' (.next hv (Schema.skips_len hown rfl hu) hs)
    have hsu : T.size u = u := hsize (.inl (by omega))
    rw [← hsu] at hle hread
    exact ⟨_, .bytes ht ((hT _ _ (.head hv)).1.trans hown) hu hle hread⟩
  | @message m st b v r n m₁ u l r' y x hv hown hu hle _ _ ihp ih =>
    obtain ⟨l, ht⟩ := number?_of_decode? hv
    have := length_of_number? ht
    have := length_of_number? hu
    obtain ⟨trp, hinner⟩ := ihp (by rw [List.length_take]; omega) fun m' v' hs =>
      hT m' v' (.inside hv (Schema.inner_of_own hown) hu hs)
    obtain ⟨tr, hread⟩ := ih (by rw [List.length_drop]; omega) fun m' v' hs =>
      hT m' v' (.next hv (Schema.skips_len hown rfl hu) hs)
    have hsu : T.size u = u := hsize (.inl (by omega))
    rw [← hsu] at hle hinner hread
    exact ⟨_, .message ht ((hT _ _ (.head hv)).1.trans hown) hu hle hinner hread⟩
  -- what is passed over is skipped, as the reader takes no field for it
  | other hv hown hskip _ ih =>
    obtain ⟨l, ht⟩ := number?_of_decode? hv
    have := length_of_number? ht
    have := hskip.length_le
    obtain ⟨tr, hread⟩ := ih (by omega) fun m' v' hs => hT m' v' (.next hv hskip hs)
    obtain ⟨htake, hwire⟩ := hT _ _ (.head hv)
    have hs : Skips T.size _ _ _ _ _ := hskip.congr (fun hn => hsize hn) (by omega)
    rw [← hwire hown] at hs
    exact ⟨_, .skip ht (htake.trans hown) hs hread⟩

/-! ### A record less -/

/-- The first record of a body does something to the message, and what is behind it may be
exchanged. If its tag is no field's own it does nothing. -/
theorem Written.behind {v : ℕ} {tb p : List UInt8} (htb : Tag tb v) (hp : Payload (v % 8) p)
    (h : Written F m st (tb ++ p ++ b) x) :
    ∃ st', Written F m st' b x ∧ (F.own m v = none → st' = st) ∧
      ∀ b' x', Written F m st' b' x' → Written F m st (tb ++ p ++ b') x' := by
  have hdecode := htb.decode? p
  have hv := hdecode b
  -- the tag at the front decides by which rule the body was read
  generalize tb ++ p ++ b = c at h hv
  cases h with
  | done => cases hv
  | varint hv' hown hu hrest =>
    cases hv.symm.trans hv'
    rw [(Schema.own_eq_some.1 hown).2.2] at hp
    cases hp with
    | varint hpv =>
      cases (hpv.number? b).symm.trans hu
      refine ⟨_, hrest, fun hn => ?_, fun b' x' h => .varint (hdecode b') hown (hpv.number? b') h⟩
      cases hown.symm.trans hn
  | bytes hv' hown hu hle hrest =>
    cases hv.symm.trans hv'
    rw [(Schema.own_eq_some.1 hown).2.2] at hp
    cases hp with
    | @len lb q hlb =>
      have hnum := number_len hlb
      cases (hnum b).symm.trans hu
      rw [List.take_left, List.drop_left] at hrest
      refine ⟨_, hrest, fun hn => ?_, fun b' x' h => ?_⟩
      · cases hown.symm.trans hn
      · refine .bytes (hdecode b') hown (hnum b') (by simp) ?_
        rwa [List.take_left, List.drop_left]
  | @message _ _ _ _ _ _ _ _ _ _ y _ hv' hown hu hle hinner hrest =>
    cases hv.symm.trans hv'
    rw [(Schema.own_eq_some.1 hown).2.2] at hp
    cases hp with
    | @len lb q hlb =>
      have hnum := number_len hlb
      cases (hnum b).symm.trans hu
      rw [List.take_left] at hinner
      rw [List.drop_left] at hrest
      refine ⟨_, hrest, fun hn => ?_, fun b' x' h => ?_⟩
      · cases hown.symm.trans hn
      · refine .message (y := y) (hdecode b') hown (hnum b') (by simp) ?_ ?_
        · rwa [List.take_left]
        · rwa [List.drop_left]
  | other hv' hown hskip hrest =>
    cases hv.symm.trans hv'
    obtain ⟨rfl, rfl, rfl⟩ := hp.of_skips hskip (fun _ => rfl) le_rfl
    exact ⟨_, hrest, fun _ => rfl, fun b' x' h =>
      .other (hdecode b') hown (hp.skips (fun _ => rfl) le_rfl b') h⟩

/-- **A record that is taken out makes no difference to what is written.** -/
theorem Written.drops {b' : List UInt8} (hd : F.Drops m b b') (h : Written F m st b x) :
    Written F m st b' x := by
  induction hd with
  -- its own record does nothing
  | here hown htb hp =>
    obtain ⟨st', hrest, hst, -⟩ := h.behind htb hp
    obtain rfl := hst hown
    exact hrest
  -- the record in front stays
  | next htb hp _ ih =>
    obtain ⟨st', hrest, -, hback⟩ := h.behind htb hp
    exact hback _ _ (ih hrest)
  | @inside m v m₁ tb lb lb' p p' b hi htb hlb hlb' _ ih =>
    have hown := Schema.own_of_inner hi
    have hv := htb.decode? (lb ++ p) b
    generalize tb ++ (lb ++ p) ++ b = c at h hv
    cases h with
    | done => cases hv
    | varint hv' hown' | bytes hv' hown' | other hv' hown' =>
      cases hv.symm.trans hv'
      cases hown.symm.trans hown'
    | @message _ _ _ _ _ _ _ _ _ _ y _ hv' hown' hu hle hinner hrest =>
      cases hv.symm.trans hv'
      cases hown.symm.trans hown'
      cases (number_len hlb b).symm.trans hu
      rw [List.take_left] at hinner
      rw [List.drop_left] at hrest
      refine .message (y := y) (htb.decode? (lb' ++ p') b) hown (number_len hlb' b) (by simp) ?_ ?_
      · rw [List.take_left]
        exact ih hinner
      · rwa [List.drop_left]

end

end Records

end Lib
