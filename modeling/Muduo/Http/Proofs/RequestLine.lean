import Muduo.Http.WireRequest

set_option autoImplicit false

/-! # Which lines are request lines

`ParseLine` splits a line at its first two blanks and then looks at single characters of what
follows. `Splits` says the first, `versionOf` the second. -/

namespace HttpRequest

open WireRequest

variable {r : HttpRequest} {line target tail : Bytes} {m : Http.Method} {v : Http.Version}

/-! ## The grammar -/

/-- `line` is `METHOD SP target SP VERSION`. -/
structure IsRequestLine (line : Bytes) (m : Http.Method) (target : Bytes) (v : Http.Version) :
    Prop where
  method_known : m ≠ .unknown
  target_space : (32 : Byte) ∉ target
  version_known : v ≠ .unknown
  eq : line = m.text ++ 32 :: (target ++ 32 :: v.text)

/-- `ParseLine` accepts `line` on the request `r` exactly when the grammar does, and takes the parts
    that the grammar names. Without a question mark it leaves the query that `r` has, so the target
    is all there on a request without one. -/
structure ReadsExactly (r : HttpRequest) (line : Bytes) : Prop where
  accepts : (r.parseLine line).1 = true ↔ ∃ m target v, IsRequestLine line m target v
  method : ∀ m target v, IsRequestLine line m target v → (r.parseLine line).2.method = m
  version : ∀ m target v, IsRequestLine line m target v → (r.parseLine line).2.version = v
  url : ∀ m target v, IsRequestLine line m target v →
    (r.parseLine line).2.url = target.takeWhile (· ≠ 63)
  target : ∀ m target v, IsRequestLine line m target v → r.query = [] →
    (r.parseLine line).2.url ++ (r.parseLine line).2.query = target
  query : ∀ m target v, IsRequestLine line m target v → r.query = [] → (63 : Byte) ∉ target →
    (r.parseLine line).2.query = []

/-- Where the last three characters of an otherwise well-formed line pass the tests on the first and
    the last of them, they spell one of the versions. -/
def VersionSpelled (line : Bytes) : Prop :=
  ∀ (m : Http.Method) (target : Bytes) (major dot minor : Byte), m ≠ .unknown →
    (32 : Byte) ∉ target →
    line = m.text ++ 32 :: (target ++ 32 :: (bytes "HTTP/" ++ [major, dot, minor])) →
    (major = 50 → dot = 46 ∧ minor = 48) ∧
      (major ≠ 50 → minor = 48 ∨ minor = 49 → major = 49 ∧ dot = 46)

/-! ## Splitting at blanks -/

/-- `line` is `METHOD SP target SP tail`, whatever the tail is. -/
structure Splits (line : Bytes) (m : Http.Method) (target tail : Bytes) : Prop where
  method_known : m ≠ .unknown
  target_space : (32 : Byte) ∉ target
  eq : line = m.text ++ 32 :: (target ++ 32 :: tail)

/-- A token ends at the first blank. -/
theorem token_inj {token token' more more' : Bytes} (h : (32 : Byte) ∉ token)
    (h' : (32 : Byte) ∉ token') (heq : token ++ 32 :: more = token' ++ 32 :: more') :
    token = token' ∧ more = more' := by
  have hlen : token.length = token'.length := by
    rw [← Delimited.idxOf_append_cons h more, heq, Delimited.idxOf_append_cons h' more']
  obtain ⟨htoken, hmore⟩ := List.append_inj heq hlen
  exact ⟨htoken, List.tail_eq_of_cons_eq hmore⟩

theorem methodOf_text (h : m ≠ .unknown) : methodOf m.text = m := by
  rw [methodOf, setMethod_text new h]

/-- A line splits in one way. -/
theorem Splits.unique {m' : Http.Method} {target' tail' : Bytes} (h : Splits line m target tail)
    (h' : Splits line m' target' tail') :
    m = m' ∧ target = target' ∧ tail = tail' := by
  obtain ⟨hmethod, hrest⟩ := token_inj (method_text_space m) (method_text_space m')
    (h.eq.symm.trans h'.eq)
  have hsame := congrArg methodOf hmethod
  rw [methodOf_text h.method_known, methodOf_text h'.method_known] at hsame
  exact ⟨hsame, token_inj h.target_space h'.target_space hrest⟩

theorem text_methodOf {token : Bytes} (h : methodOf token ≠ .unknown) :
    (methodOf token).text = token := by
  unfold methodOf setMethod at h ⊢
  split_ifs at h ⊢ with h₁ h₂ h₃ h₄ h₅
  · exact h₁.symm
  · exact h₂.symm
  · exact h₃.symm
  · exact h₄.symm
  · exact h₅.symm
  · exact absurd rfl h

/-! ## The version test -/

/-- What `ParseLine` makes of the rest of the line behind the second blank. -/
def versionOf (tail : Bytes) : Option Http.Version :=
  if tail.length = 8 ∧ tail.take 5 = bytes "HTTP/" then
    if tail.getD 5 0 = 50 then some .http20
    else if tail.getD 7 0 = 48 then some .http10
    else if tail.getD 7 0 = 49 then some .http11
    else none
  else none

theorem versionOf_text (h : v ≠ .unknown) : versionOf v.text = some v := by
  cases v with
  | unknown => exact absurd rfl h
  | http10 => rfl
  | http11 => rfl
  | http20 => rfl

theorem versionOf_three (major dot minor : Byte) :
    versionOf (bytes "HTTP/" ++ [major, dot, minor])
      = if major = 50 then some .http20
        else if minor = 48 then some .http10
        else if minor = 49 then some .http11
        else none := by
  have hshape : (bytes "HTTP/" ++ [major, dot, minor]).length = 8 ∧
      (bytes "HTTP/" ++ [major, dot, minor]).take 5 = bytes "HTTP/" := ⟨rfl, rfl⟩
  rw [versionOf, if_pos hshape]
  rfl

/-- Only eight characters that begin with `HTTP/` pass. -/
theorem eq_of_versionOf (h : versionOf tail = some v) :
    ∃ major dot minor, tail = bytes "HTTP/" ++ [major, dot, minor] := by
  simp only [versionOf, Option.ite_none_right_eq_some] at h
  obtain ⟨⟨hlen, htake⟩, -⟩ := h
  have hdrop : (tail.drop 5).length = 3 := by
    rw [List.length_drop, hlen]
  obtain ⟨major, dot, minor, hthree⟩ := List.length_eq_three.1 hdrop
  exact ⟨major, dot, minor, by rw [← htake, ← hthree, List.take_append_drop]⟩

/-! ## ParseLine -/

/-- What `ParseLine` makes of a line that splits. -/
theorem Splits.ofLine (h : Splits line m target tail) :
    Patch.ofLine line = ⟨(versionOf tail).isSome, some m, some target, versionOf tail⟩ := by
  have hmethod := methodOf_text h.method_known
  have hspace := Delimited.idxOf_append_cons (method_text_space m) (target ++ 32 :: tail)
  have htarget := Delimited.idxOf_append_cons h.target_space tail
  rw [h.eq]
  simp only [Patch.ofLine, hspace, htarget, ne_eq, Delimited.length_ne_append_cons,
    not_false_eq_true, if_true, List.take_left, Delimited.drop_append_cons, hmethod,
    h.method_known, if_false, versionOf]
  split_ifs <;> rfl

/-- A line with two blanks splits there. -/
theorem splits_of_spaces (hspace : line.idxOf 32 ≠ line.length)
    (hknown : methodOf (line.take (line.idxOf 32)) ≠ .unknown) {rest : Bytes}
    (hrest : rest = line.drop (line.idxOf 32 + 1)) (hspace' : rest.idxOf 32 ≠ rest.length) :
    Splits line (methodOf (line.take (line.idxOf 32))) (rest.take (rest.idxOf 32))
      (rest.drop (rest.idxOf 32 + 1)) := by
  obtain ⟨-, hline⟩ := Delimited.eq_of_idxOf_ne hspace
  obtain ⟨hfree, htarget⟩ := Delimited.eq_of_idxOf_ne hspace'
  refine ⟨hknown, hfree, ?_⟩
  rw [text_methodOf hknown, ← htarget, hrest, ← hline]

/-- A line that is accepted splits. -/
theorem exists_splits_of_ok (h : (Patch.ofLine line).ok = true) :
    ∃ m target tail, Splits line m target tail := by
  simp only [Patch.ofLine] at h
  split_ifs at h with hspace hunknown hspace'
  all_goals exact ⟨_, _, _, splits_of_spaces hspace hunknown rfl hspace'⟩

/-- The line passes the tests: nothing else is asked of what follows the second blank. -/
def Passes (line : Bytes) : Prop :=
  ∃ m target tail, Splits line m target tail ∧ (versionOf tail).isSome = true

theorem parseLine_fst_iff : (r.parseLine line).1 = true ↔ Passes line := by
  rw [parseLine_eq, Patch.outcome]
  constructor
  · intro hok
    obtain ⟨m, target, tail, hsplits⟩ := exists_splits_of_ok hok
    rw [hsplits.ofLine] at hok
    exact ⟨m, target, tail, hsplits, hok⟩
  · rintro ⟨m, target, tail, hsplits, hversion⟩
    rw [hsplits.ofLine]
    exact hversion

instance decidablePasses (line : Bytes) : Decidable (Passes line) :=
  decidable_of_iff _ (parseLine_fst_iff (r := new))

theorem IsRequestLine.splits (h : IsRequestLine line m target v) :
    Splits line m target v.text := ⟨h.method_known, h.target_space, h.eq⟩

theorem Splits.isRequestLine (h : Splits line m target v.text) (hv : v ≠ .unknown) :
    IsRequestLine line m target v := ⟨h.method_known, h.target_space, hv, h.eq⟩

/-- `ParseLine` on a request line. -/
theorem IsRequestLine.parseLine (h : IsRequestLine line m target v) (r : HttpRequest) :
    r.parseLine line = (true, Patch.apply ⟨true, some m, some target, some v⟩ r) := by
  rw [parseLine_eq, h.splits.ofLine, versionOf_text h.version_known]
  rfl

/-- The characters before the first question mark. -/
theorem takeWhile_question (target : Bytes) :
    target.takeWhile (· ≠ 63) = target.take (target.idxOf 63) := by
  induction target with
  | nil => rfl
  | cons b rest ih =>
      by_cases hb : b = 63
      · simp [hb]
      · rw [List.takeWhile_cons_of_pos (by simpa using hb), List.idxOf_cons_ne _ hb,
          List.take_succ_cons, ih]

theorem apply_url (r : HttpRequest) (m : Http.Method) (target : Bytes) (v : Http.Version) :
    (Patch.apply ⟨true, some m, some target, some v⟩ r).url = target.takeWhile (· ≠ 63) := by
  rw [takeWhile_question]
  simp only [Patch.apply]
  split
  · rfl
  · rename_i hnone
    rw [not_not.1 hnone, List.take_length]

theorem apply_method (r : HttpRequest) (m : Http.Method) (target : Bytes) (v : Http.Version) :
    (Patch.apply ⟨true, some m, some target, some v⟩ r).method = m := by
  simp only [Patch.apply]
  split <;> rfl

theorem apply_headers (r : HttpRequest) (m : Http.Method) (target : Bytes) (v : Http.Version) :
    (Patch.apply ⟨true, some m, some target, some v⟩ r).headers = r.headers := by
  simp only [Patch.apply]
  split <;> rfl

theorem apply_query (m : Http.Method) (target : Bytes) (v : Http.Version) (hr : r.query = []) :
    (Patch.apply ⟨true, some m, some target, some v⟩ r).query = target.drop (target.idxOf 63) := by
  simp only [Patch.apply]
  split
  · rfl
  · rename_i hnone
    rw [not_not.1 hnone, List.drop_length]
    exact hr

/-! ## The grammar and the tests -/

/-- A version that is not spelled out is accepted all the same. -/
theorem ReadsExactly.versionSpelled (h : ReadsExactly r line) : VersionSpelled line := by
  intro m target major dot minor hm htarget hline
  have hsplits : Splits line m target (bytes "HTTP/" ++ [major, dot, minor]) := ⟨hm, htarget, hline⟩
  have hspelled (hpass : (versionOf (bytes "HTTP/" ++ [major, dot, minor])).isSome = true) :
      ∃ v : Http.Version, v ≠ .unknown ∧ bytes "HTTP/" ++ [major, dot, minor] = v.text := by
    have hok : (r.parseLine line).1 = true := parseLine_fst_iff.2 ⟨m, target, _, hsplits, hpass⟩
    obtain ⟨m', target', v, hnamed⟩ := h.accepts.1 hok
    exact ⟨v, hnamed.version_known, (hsplits.unique hnamed.splits).2.2⟩
  rw [versionOf_three] at hspelled
  constructor
  · rintro rfl
    obtain ⟨v, hv, heq⟩ := hspelled (by simp)
    cases v <;> simp_all [Http.Version.text, bytes]
  · intro hmajor hminor
    obtain ⟨v, hv, heq⟩ := hspelled (by rcases hminor with rfl | rfl <;> simp [hmajor])
    cases v <;> simp_all [Http.Version.text, bytes]

/-- The three characters spell the version that the tests find. -/
theorem VersionSpelled.text_eq (h : VersionSpelled line) (hsplits : Splits line m target tail)
    (hv : versionOf tail = some v) : v ≠ .unknown ∧ tail = v.text := by
  obtain ⟨major, dot, minor, rfl⟩ := eq_of_versionOf hv
  obtain ⟨htwo, hone⟩ := h m target major dot minor hsplits.method_known hsplits.target_space
    hsplits.eq
  rw [versionOf_three] at hv
  split_ifs at hv with hmajor h0 h1
  · obtain ⟨rfl, rfl⟩ := htwo hmajor
    subst hmajor
    cases hv
    exact ⟨by simp, rfl⟩
  · obtain ⟨rfl, rfl⟩ := hone hmajor (Or.inl h0)
    subst h0
    cases hv
    exact ⟨by simp, rfl⟩
  · obtain ⟨rfl, rfl⟩ := hone hmajor (Or.inr h1)
    subst h1
    cases hv
    exact ⟨by simp, rfl⟩

/-- `ParseLine` reads a line as the grammar does if and only if the version is spelled out where its
    tests on two characters find one. -/
theorem readsExactly_iff (r : HttpRequest) (line : Bytes) :
    ReadsExactly r line ↔ VersionSpelled line := by
  refine ⟨ReadsExactly.versionSpelled, fun hspelled => ?_⟩
  refine ⟨⟨fun hok => ?_, ?_⟩, ?_, ?_, ?_, ?_, ?_⟩
  · obtain ⟨m, target, tail, hsplits, hsome⟩ := parseLine_fst_iff.1 hok
    obtain ⟨v, hv⟩ := Option.isSome_iff_exists.1 hsome
    obtain ⟨hknown, rfl⟩ := hspelled.text_eq hsplits hv
    exact ⟨m, target, v, hsplits.isRequestLine hknown⟩
  · rintro ⟨m, target, v, h⟩
    rw [h.parseLine]
  · intro m target v h
    rw [h.parseLine, apply_method]
  · intro m target v h
    rw [h.parseLine]
    rfl
  · intro m target v h
    rw [h.parseLine, apply_url]
  · intro m target v h hr
    rw [h.parseLine, apply_url, apply_query m target v hr, takeWhile_question,
      List.take_append_drop]
  · intro m target v h hr hnone
    rw [h.parseLine, apply_query m target v hr, List.idxOf_eq_length hnone, List.drop_length]

/-- `GET / HTTP/3.0` is accepted, as a request of version 1.0. -/
theorem not_readsExactly_three :
    ¬ crlf <:+: bytes "GET / HTTP/3.0" ∧
      new.parseLine (bytes "GET / HTTP/3.0")
        = (true, { new with method := .GET, url := bytes "/", version := .http10 }) ∧
      ¬ ReadsExactly new (bytes "GET / HTTP/3.0") := by
  refine ⟨Delimited.pair_not_infix_of_notMem (by decide), by decide, fun h => ?_⟩
  have hspelled := h.versionSpelled .GET (bytes "/") 51 46 48 (by decide) (by decide) (by decide)
  exact absurd (hspelled.2 (by decide) (Or.inl rfl)) (by decide)

end HttpRequest
