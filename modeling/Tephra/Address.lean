import Tephra.Number
import Tephra.Types

/-!
# Addresses

`parseAddress` of `client.ts`.  An address is a host and a port, or a host in brackets and a port;
the port may be missing.  The port of the plain form is checked, that of the bracketed form is taken
as it comes.

* `parseAddress_bracketed`, `parseAddress_plain` : what the two forms are parsed to.
* `parse_decimal` : a decimal port is the same in both.
* `port_rule_iff` : the port rule holds for an address unless it is bracketed and has a bad port,
  and the two forms agree on the ports that are good.
-/

namespace Tephra

/-- `[`. -/
def openBracket : UInt16 := 0x5b

/-- `]`. -/
def closeBracket : UInt16 := 0x5d

/-- `:`. -/
def colon : UInt16 := 0x3a

/-- `s.lastIndexOf(c)`, if there is one. -/
def lastIdxOf? (c : UInt16) (s : JsString) : Option ℕ :=
  (s.reverse.idxOf? c).map fun i => s.length - 1 - i

/-- A parsed address. -/
structure Address where
  host : JsString
  port : JsNumber
  deriving DecidableEq, Repr

/-- `DEFAULT_PORT`. -/
def defaultPort : JsNumber := .finite 9000

/-- `Number.isInteger(port) && port >= 1 && port <= 65535`. -/
def isPort (port : JsNumber) : Bool := port.integer?.any fun port => 1 ≤ port && port ≤ 65535

/-- `parseAddress`. -/
def parseAddress (addr : JsString) : Except Err Address :=
  let trimmed := trim addr
  if trimmed.head? = some openBracket then
    match trimmed.idxOf? closeBracket with
    | none => throw (.native "TypeError" (js "invalid address " ++ jsonStringify addr))
    | some close =>
      let host := (trimmed.take close).drop 1
      let rest := trimmed.drop (close + 1)
      let port := if rest.head? = some colon then stringToNumber (rest.drop 1) else defaultPort
      return { host := host, port := port }
  else
    match lastIdxOf? colon trimmed with
    | none => return { host := trimmed, port := defaultPort }
    | some last =>
      let host := trimmed.take last
      let port := stringToNumber (trimmed.drop (last + 1))
      if !isPort port then
        throw (.native "TypeError" (js "invalid port in address " ++ jsonStringify addr))
      else return { host := if host = [] then js "127.0.0.1" else host, port := port }

/-! ### Searching -/

theorem idxOf?_append_cons {c : UInt16} {s : JsString} (h : c ∉ s) (t : JsString) :
    (s ++ c :: t).idxOf? c = some s.length := by
  induction s with
  | nil => simp [List.idxOf?_cons]
  | cons d s ih =>
    rw [List.mem_cons, not_or] at h
    rw [List.cons_append, List.idxOf?_cons, ih h.2, if_neg (by simpa using Ne.symm h.1)]
    rfl

/-- There is one place to divide a string at the first occurrence. -/
theorem append_cons_inj {c : UInt16} {s s' t t' : JsString} (hs : c ∉ s) (hs' : c ∉ s')
    (h : s ++ c :: t = s' ++ c :: t') : s = s' ∧ t = t' := by
  have hlen : some s.length = some s'.length := by
    rw [← idxOf?_append_cons hs t, h, idxOf?_append_cons hs' t']
  obtain ⟨hs, ht⟩ := List.append_inj h (Option.some.inj hlen)
  exact ⟨hs, (List.cons.inj ht).2⟩

theorem lastIdxOf?_append_cons {c : UInt16} {t : JsString} (h : c ∉ t) (s : JsString) :
    lastIdxOf? c (s ++ c :: t) = some s.length := by
  have hreverse : (s ++ c :: t).reverse = t.reverse ++ c :: s.reverse := by simp
  rw [lastIdxOf?, hreverse, idxOf?_append_cons (by simpa using h), Option.map_some]
  simp

theorem lastIdxOf?_eq_none {c : UInt16} {s : JsString} : lastIdxOf? c s = none ↔ c ∉ s := by
  rw [lastIdxOf?, Option.map_eq_none_iff, List.idxOf?_eq_none_iff, List.mem_reverse]

/-! ### White space -/

/-- White space at the end is what is trimmed from an address that begins with something else. -/
theorem trim_append_cons {c d : UInt16} (hc : isWhiteSpace c = false) (hd : isWhiteSpace d = false)
    (s t : JsString) : trim (c :: s ++ d :: t) = c :: s ++ d :: trimEnd t := by
  have hend : trimEnd (c :: s ++ d :: t) = c :: s ++ d :: trimEnd t := by
    have hreverse : (c :: s ++ d :: t).reverse = t.reverse ++ d :: (c :: s).reverse := by simp
    rw [trimEnd, List.rdropWhile, hreverse, List.dropWhile_append]
    rcases hnil : t.reverse.dropWhile isWhiteSpace with _ | ⟨e, u⟩
    · simp [hd, trimEnd, List.rdropWhile, hnil]
    · simp [trimEnd, List.rdropWhile, hnil]
  rw [trim, hend, List.cons_append, List.dropWhile_cons, hc]
  rfl

/-! ### Ports -/

/-- An integer in `[1, 65535]`. -/
def GoodPort (port : JsNumber) : Prop := ∃ n : ℤ, port = .finite n ∧ 1 ≤ n ∧ n ≤ 65535

theorem isPort_iff {port : JsNumber} : isPort port = true ↔ GoodPort port := by
  have hinteger : ∀ n : ℤ, port.integer? = some n ↔ port = .finite n := by
    intro n
    cases port with
    | nan | infinity negative => exact iff_of_false (by nofun) (by nofun)
    | finite value =>
      rw [JsNumber.integer?, Option.ite_none_right_eq_some, Option.some.injEq,
        JsNumber.finite.injEq]
      constructor
      · rintro ⟨hden, rfl⟩
        exact (Rat.den_eq_one_iff value).1 hden |>.symm
      · rintro rfl
        exact ⟨Rat.den_intCast n, Rat.num_intCast n⟩
  rw [isPort, Option.any_eq_true, GoodPort]
  simp only [hinteger, Bool.and_eq_true, decide_eq_true_eq]

/-! ### The forms of an address -/

section

variable {addr : JsString}

theorem parseAddress_unclosed (hopen : (trim addr).head? = some openBracket)
    (hclose : closeBracket ∉ trim addr) : parseAddress addr =
      .error (.native "TypeError" (js "invalid address " ++ jsonStringify addr)) := by
  simp only [parseAddress, if_pos hopen, List.idxOf?_eq_none_iff.2 hclose]
  rfl

/-- A host in brackets, and what follows it. -/
theorem parseAddress_bracketed {host rest : JsString}
    (h : trim addr = openBracket :: host ++ closeBracket :: rest) (hhost : closeBracket ∉ host) :
    parseAddress addr = .ok
      { host := host
        port :=
          if rest.head? = some colon then stringToNumber (rest.drop 1) else defaultPort } := by
  have hnot : closeBracket ∉ openBracket :: host := by
    rw [List.mem_cons, not_or]
    exact ⟨by decide, hhost⟩
  have hclose := idxOf?_append_cons hnot rest
  have hdrop : (openBracket :: host ++ closeBracket :: rest).drop
      ((openBracket :: host).length + 1) = rest := by simp
  have hopen : (trim addr).head? = some openBracket := by rw [h]; rfl
  rw [parseAddress, if_pos hopen]
  simp only [h, hclose, List.take_left, hdrop]
  rfl

theorem parseAddress_hostOnly (hopen : (trim addr).head? ≠ some openBracket)
    (hcolon : colon ∉ trim addr) : parseAddress addr =
      .ok { host := trim addr, port := defaultPort } := by
  simp only [parseAddress, if_neg hopen, lastIdxOf?_eq_none.2 hcolon]
  rfl

/-- A host and a port. -/
theorem parseAddress_plain {host port : JsString} (h : trim addr = host ++ colon :: port)
    (hopen : (trim addr).head? ≠ some openBracket) (hport : colon ∉ port) :
    parseAddress addr =
      if isPort (stringToNumber port) then
        .ok { host := if host = [] then js "127.0.0.1" else host, port := stringToNumber port }
      else .error (.native "TypeError" (js "invalid port in address " ++ jsonStringify addr)) := by
  have hlast := lastIdxOf?_append_cons hport host
  have hdrop : (host ++ colon :: port).drop (host.length + 1) = port := by simp
  rw [parseAddress, if_neg hopen]
  simp only [h, hlast, List.take_left, hdrop]
  cases isPort (stringToNumber port) <;> rfl

end

/-! ### The port rule -/

/-- The address is rejected with a `TypeError`, or has a good port. -/
def FollowsPortRule (addr : JsString) : Prop :=
  (∃ message, parseAddress addr = .error (.native "TypeError" message)) ∨
    ∃ a, parseAddress addr = .ok a ∧ GoodPort a.port

/-- The address is a host in brackets with a port that is not good. -/
def HasUncheckedPort (addr : JsString) : Prop :=
  ∃ host port, trim addr = openBracket :: host ++ closeBracket :: colon :: port ∧
    closeBracket ∉ host ∧ ¬GoodPort (stringToNumber port)

theorem goodPort_default : GoodPort defaultPort := ⟨9000, by norm_num [defaultPort], by decide⟩

theorem exists_bracketed {s : JsString} (hopen : s.head? = some openBracket)
    (hclose : closeBracket ∈ s) : ∃ host rest,
      s = openBracket :: host ++ closeBracket :: rest ∧ closeBracket ∉ host := by
  obtain ⟨before, rest, rfl, hbefore⟩ := List.eq_append_cons_of_mem hclose
  cases before with
  | nil => exact absurd (Option.some.inj hopen) (by decide)
  | cons c host =>
    cases hopen
    exact ⟨host, rest, rfl, fun h => hbefore (List.mem_cons_of_mem _ h)⟩

theorem followsPortRule_bracketed {addr host rest : JsString}
    (h : trim addr = openBracket :: host ++ closeBracket :: rest) (hhost : closeBracket ∉ host) :
    FollowsPortRule addr ↔ ¬HasUncheckedPort addr := by
  have hparse := parseAddress_bracketed h hhost
  have hfollows : ∀ {port : JsNumber}, parseAddress addr = .ok { host := host, port := port } →
      (FollowsPortRule addr ↔ GoodPort port) := by
    intro port hp
    simp [FollowsPortRule, hp]
  have hunchecked : HasUncheckedPort addr ↔
      ∃ port, rest = colon :: port ∧ ¬GoodPort (stringToNumber port) := by
    constructor
    · rintro ⟨host', port, h', hhost', hbad⟩
      obtain ⟨-, rfl⟩ := append_cons_inj hhost hhost' (List.cons.inj (h.symm.trans h')).2
      exact ⟨port, rfl, hbad⟩
    · rintro ⟨port, rfl, hbad⟩
      exact ⟨host, port, h, hhost, hbad⟩
  rw [hfollows hparse, hunchecked]
  cases rest with
  | nil => exact iff_of_true goodPort_default (by simp)
  | cons c port =>
    by_cases hcolon : c = colon
    · subst hcolon
      simp
    · rw [if_neg (by simpa using hcolon)]
      exact iff_of_true goodPort_default (by simp [hcolon])

theorem followsPortRule_plain {addr : JsString} (hopen : (trim addr).head? ≠ some openBracket) :
    FollowsPortRule addr := by
  by_cases hcolon : colon ∈ trim addr
  · obtain ⟨port, host, hreverse, hport⟩ :=
      List.eq_append_cons_of_mem (List.mem_reverse.2 hcolon)
    have h : trim addr = host.reverse ++ colon :: port.reverse := by
      rw [← List.reverse_reverse (trim addr), hreverse]
      simp
    have hparse := parseAddress_plain h hopen (by simpa using hport)
    by_cases hgood : isPort (stringToNumber port.reverse) = true
    · rw [if_pos hgood] at hparse
      exact .inr ⟨_, hparse, isPort_iff.1 hgood⟩
    · rw [if_neg hgood] at hparse
      exact .inl ⟨_, hparse⟩
  · exact .inr ⟨_, parseAddress_hostOnly hopen hcolon, goodPort_default⟩

theorem followsPortRule_iff (addr : JsString) : FollowsPortRule addr ↔ ¬HasUncheckedPort addr := by
  by_cases hopen : (trim addr).head? = some openBracket
  · by_cases hclose : closeBracket ∈ trim addr
    · obtain ⟨host, rest, h, hhost⟩ := exists_bracketed hopen hclose
      exact followsPortRule_bracketed h hhost
    · refine iff_of_true (.inl ⟨_, parseAddress_unclosed hopen hclose⟩) ?_
      rintro ⟨host, port, h, -⟩
      exact hclose (by simp [h])
  · refine iff_of_true (followsPortRule_plain hopen) ?_
    rintro ⟨host, port, h, -⟩
    exact hopen (by rw [h]; rfl)

theorem parse_forms {host port : JsString} (hne : host ≠ []) (hcolon : colon ∉ port)
    (hopen : openBracket ∉ host) (hclose : closeBracket ∉ host)
    (hspace : ∀ c, host.head? = some c → isWhiteSpace c = false) :
    parseAddress (openBracket :: host ++ closeBracket :: colon :: port) =
        .ok { host := host, port := stringToNumber port } ∧
      parseAddress (host ++ colon :: port) =
        if isPort (stringToNumber port) then .ok { host := host, port := stringToNumber port }
        else .error (.native "TypeError"
          (js "invalid port in address " ++ jsonStringify (host ++ colon :: port))) := by
  rw [← stringToNumber_trimEnd port]
  constructor
  · have htrim := trim_append_cons (c := openBracket) (d := colon) (by decide) (by decide)
      (host ++ [closeBracket]) port
    have h : trim (openBracket :: host ++ closeBracket :: colon :: port) =
        openBracket :: host ++ closeBracket :: colon :: trimEnd port := by simpa using htrim
    rw [parseAddress_bracketed h hclose]
    rfl
  · cases host with
    | nil => exact absurd rfl hne
    | cons c host =>
      have htrim := trim_append_cons (d := colon) (hspace c rfl) (by decide) host port
      have hhead : (trim (c :: host ++ colon :: port)).head? ≠ some openBracket := by
        rw [htrim]
        intro h
        exact hopen (Option.some.inj h ▸ List.mem_cons_self)
      have hsub : trimEnd port <+: port := List.rdropWhile_prefix _ port
      have hend : colon ∉ trimEnd port := fun h => hcolon (hsub.subset h)
      rw [parseAddress_plain htrim hhead hend, if_neg (List.cons_ne_nil c host)]

/-- A decimal port, in both forms. -/
theorem parse_decimal {host digits : JsString} (hne : host ≠ []) (hopen : openBracket ∉ host)
    (hclose : closeBracket ∉ host) (hspace : ∀ c, host.head? = some c → isWhiteSpace c = false)
    (hdigits : digits.all (isDigit 10) = true) (hport : 1 ≤ digitsValue 10 digits)
    (hport' : digitsValue 10 digits ≤ 65535) :
    let address : Address := { host := host, port := .finite (digitsValue 10 digits) }
    parseAddress (openBracket :: host ++ closeBracket :: colon :: digits) = .ok address ∧
      parseAddress (host ++ colon :: digits) = .ok address := by
  have hnumber : stringToNumber digits = .finite (digitsValue 10 digits) := by
    refine stringToNumber_digits ?_ hdigits (by omega)
    rintro rfl
    cases hport
  have hcolon : colon ∉ digits := fun h => absurd (List.all_eq_true.1 hdigits colon h) (by decide)
  have hgood : isPort (stringToNumber digits) = true := by
    rw [hnumber]
    exact isPort_iff.2 ⟨digitsValue 10 digits, by simp, by exact_mod_cast hport,
      by exact_mod_cast hport'⟩
  have hforms := parse_forms hne hcolon hopen hclose hspace
  rwa [if_pos hgood, hnumber] at hforms

/-- **Address parsing applies one port rule to both forms** exactly when the port in brackets is
good. -/
theorem port_rule_iff (addr host port : JsString) :
    (FollowsPortRule addr ↔ ¬HasUncheckedPort addr) ∧
      (host ≠ [] → colon ∉ host → openBracket ∉ host → closeBracket ∉ host →
        (∀ c, host.head? = some c → isWhiteSpace c = false) →
        (∀ c, host.getLast? = some c → isWhiteSpace c = false) →
        colon ∉ port → openBracket ∉ port → closeBracket ∉ port →
          ((∀ a, parseAddress (openBracket :: host ++ closeBracket :: colon :: port) = .ok a ↔
              parseAddress (host ++ colon :: port) = .ok a) ↔ GoodPort (stringToNumber port))) := by
  refine ⟨followsPortRule_iff addr, ?_⟩
  intro hne _ hopen hclose hspace _ hcolon _ _
  obtain ⟨hbracketed, hplain⟩ := parse_forms hne hcolon hopen hclose hspace
  rw [hbracketed, hplain, ← isPort_iff]
  by_cases hgood : isPort (stringToNumber port) = true
  · rw [if_pos hgood]
    exact iff_of_true (fun _ => Iff.rfl) hgood
  · rw [if_neg hgood]
    refine iff_of_false (fun h => ?_) hgood
    cases (h _).1 rfl

/-- A port in brackets may be anything, and is refused without them. -/
theorem bracketed_port_unchecked :
    parseAddress (js "[h]:x") = .ok { host := js "h", port := .nan } ∧
      parseAddress (js "h:x") =
        .error (.native "TypeError" (js "invalid port in address \"h:x\"")) := by
  decide +kernel

/-- A good port, in both forms. -/
theorem port_rule_tephra :
    ∀ a, parseAddress (js "[h]:9000") = .ok a ↔ parseAddress (js "h:9000") = .ok a := by
  have hbracketed : js "[h]:9000" =
      openBracket :: [0x68] ++ closeBracket :: colon :: [0x39, 0x30, 0x30, 0x30] := by
    decide +kernel
  have hplain : js "h:9000" = [0x68] ++ colon :: [0x39, 0x30, 0x30, 0x30] := by decide +kernel
  have hgood : isPort (stringToNumber [0x39, 0x30, 0x30, 0x30]) = true := by decide +kernel
  rw [hbracketed, hplain]
  refine ((port_rule_iff [] [0x68] [0x39, 0x30, 0x30, 0x30]).2 ?_ ?_ ?_ ?_ ?_ ?_ ?_ ?_ ?_).2
    (isPort_iff.1 hgood)
  all_goals simp [colon, openBracket, closeBracket, isWhiteSpace]

end Tephra
