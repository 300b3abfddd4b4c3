import Mathlib.Data.List.DropRight
import Muduo.Http.Proofs.HttpRequest

set_option autoImplicit false

/-! # What is stored of a header value

The second loop of `AddHeader` starts at the carriage return and stops at the last character that
is no white space. The value ends before the place where it stops, so that character is lost. -/

/-- A text without the white space around it. -/
def trim (text : Bytes) : Bytes := (text.dropWhile isspace).rdropWhile isspace

theorem trim_eq_nil_iff {text : Bytes} : trim text = [] ↔ ∀ c ∈ text, isspace c = true := by
  rw [trim, List.rdropWhile_eq_nil_iff]
  constructor
  · intro hrest c hc
    rw [← List.takeWhile_append_dropWhile (p := isspace) (l := text), List.mem_append] at hc
    exact hc.elim List.mem_takeWhile_imp (hrest c)
  · exact fun hall c hc => hall c ((List.dropWhile_suffix _).subset hc)

/-! ## Header maps -/

theorem HeaderMap.get?_isSome_iff {m : HeaderMap} {key : Bytes} :
    (m.get? key).isSome ↔ key ∈ m.map Prod.fst := by
  induction m with
  | nil => simp [get?]
  | cons entry rest ih =>
      obtain ⟨k, v⟩ := entry
      simp only [get?, List.map_cons, List.mem_cons]
      split
      · rename_i hk
        simp [hk]
      · rename_i hk
        simp [ih, Ne.symm hk]

namespace HttpRequest

variable {t : Timestamp} {r : HttpRequest} {front value back rest : Bytes}
variable {fields : List (Bytes × Bytes)}

/-! ## The loops of AddHeader -/

theorem skipSpaces_eq (front value back : Bytes) :
    skipSpaces (front ++ value ++ back) value.length front.length
      = front.length + (value.takeWhile isspace).length := by
  induction value generalizing front with
  | nil => rfl
  | cons c value ih =>
      have hcell : (front ++ c :: value ++ back).getD front.length 0 = c := by simp
      have hnext := ih (front ++ [c])
      simp only [List.append_assoc, List.singleton_append, List.length_append,
        List.length_singleton] at hnext
      rw [List.length_cons, skipSpaces, hcell, List.takeWhile_cons]
      split
      · rw [List.append_assoc, hnext, List.length_cons]
        omega
      · rfl

/-- The loop that goes back over `value` first reads the character behind it. -/
theorem trimSpaces_eq (front value : Bytes) {c : Byte} (hc : isspace c = true) (back : Bytes) :
    trimSpaces (front ++ value ++ c :: back) value.length (front.length + value.length)
      = front.length + ((value.rdropWhile isspace).length - 1) := by
  induction value using List.reverseRecOn generalizing c back with
  | nil => simp [trimSpaces]
  | append_singleton value last ih =>
      have hcell : (front ++ (value ++ [last]) ++ c :: back).getD
          (front.length + (value ++ [last]).length) 0 = c := by
        rw [← List.length_append]
        simp
      rw [show (value ++ [last]).length = value.length + 1 by simp] at hcell ⊢
      rw [trimSpaces, hcell, if_pos hc, Nat.add_sub_assoc (by omega), Nat.add_sub_cancel]
      by_cases hlast : isspace last = true
      · rw [List.rdropWhile_concat_pos _ _ _ hlast, ← ih hlast (c :: back)]
        simp
      · rw [List.rdropWhile_concat_neg _ _ _ hlast]
        cases hlength : value.length with
        | zero => simp [trimSpaces, hlength]
        | succ n =>
            have hstop : (front ++ (value ++ [last]) ++ c :: back).getD (front.length + (n + 1)) 0
                = last := by
              rw [← hlength, ← List.length_append]
              simp
            rw [trimSpaces, hstop, if_neg hlast]
            simp [hlength]

/-! ## Fields -/

/-- A header line, without its break. -/
def fieldLine (field : Bytes × Bytes) : Bytes := field.1 ++ 58 :: field.2

structure IsField (field : Bytes × Bytes) : Prop where
  key_colon : (58 : Byte) ∉ field.1
  key_line : ¬ crlf <:+: field.1
  value_line : ¬ crlf <:+: field.2

theorem IsField.isHeaderLine {field : Bytes × Bytes} (h : IsField field) :
    IsHeaderLine (fieldLine field) := by
  refine ⟨by simp [fieldLine], Delimited.pair_not_infix_append h.key_line ?_ (by simp)⟩
  rw [List.infix_cons_iff, not_or]
  exact ⟨fun hpre => absurd (Delimited.pair_prefix_cons_iff.1 hpre).1 (by decide), h.value_line⟩

/-- A header line cut at its first colon. -/
def fieldOf (line : Bytes) : Bytes × Bytes :=
  (line.take (line.idxOf 58), line.drop (line.idxOf 58 + 1))

theorem fieldOf_fieldLine {field : Bytes × Bytes} (hkey : (58 : Byte) ∉ field.1) :
    fieldOf (fieldLine field) = field := by
  simp only [fieldOf, fieldLine, Delimited.idxOf_append_cons hkey, List.take_left,
    Delimited.drop_append_cons]

theorem IsHeaderLine.fieldLine_fieldOf {line : Bytes} (h : IsHeaderLine line) :
    fieldLine (fieldOf line) = line := by
  have hne : line.idxOf 58 ≠ line.length := Nat.ne_of_lt (List.idxOf_lt_length_of_mem h.1)
  exact (Delimited.eq_of_idxOf_ne hne).2.symm

theorem IsHeaderLine.isField {line : Bytes} (h : IsHeaderLine line) : IsField (fieldOf line) := by
  have hne : line.idxOf 58 ≠ line.length := Nat.ne_of_lt (List.idxOf_lt_length_of_mem h.1)
  have hline := h.2
  rw [← h.fieldLine_fieldOf, fieldLine] at hline
  refine ⟨(Delimited.eq_of_idxOf_ne hne).1,
    fun hin => hline (hin.trans (List.prefix_append _ _).isInfix),
    fun hin => hline (hin.trans ?_)⟩
  exact ((List.suffix_cons _ _).trans (List.suffix_append _ _)).isInfix

/-- What `AddHeader` makes of a value. -/
def stored (value : Bytes) : Bytes := (trim value).dropLast

theorem stored_eq_trim_iff {value : Bytes} :
    stored value = trim value ↔ ∀ c ∈ value, isspace c = true := by
  rw [← trim_eq_nil_iff, stored]
  constructor
  · intro hsame
    have hlength := congrArg List.length hsame
    rw [List.length_dropLast] at hlength
    exact List.eq_nil_of_length_eq_zero (by omega)
  · intro hnil
    rw [hnil]
    rfl

theorem take_rdropWhile (value back : Bytes) :
    (value ++ back).take ((value.rdropWhile isspace).length - 1)
      = (value.rdropWhile isspace).dropLast := by
  obtain ⟨spaces, hspaces⟩ := List.rdropWhile_prefix isspace value
  generalize value.rdropWhile isspace = kept at hspaces ⊢
  rw [← hspaces, List.append_assoc, List.take_append_of_le_length (by omega),
    List.dropLast_eq_take]

theorem addLine_fieldLine (r : HttpRequest) {field : Bytes × Bytes} (hkey : (58 : Byte) ∉ field.1) :
    r.addLine (fieldLine field)
      = { r with headers := HeaderMap.set r.headers field.1 (stored field.2) } := by
  obtain ⟨key, value⟩ := field
  have hcolon : (fieldLine (key, value)).idxOf 58 = key.length :=
    Delimited.idxOf_append_cons hkey value
  have hlength : (fieldLine (key, value)).length = key.length + 1 + value.length := by
    simp only [fieldLine, List.length_append, List.length_cons]
    omega
  -- what the first loop passes over belongs to the front of the text for the second
  generalize hfront : key ++ [58] ++ value.takeWhile isspace = front
  have htext : fieldLine (key, value) ++ [13] = front ++ value.dropWhile isspace ++ [13] := by
    rw [← hfront, List.append_assoc _ (value.takeWhile isspace), List.takeWhile_append_dropWhile]
    simp [fieldLine]
  have hsplit : front.length + (value.dropWhile isspace).length
      = key.length + 1 + value.length := by
    have hvalue : (value.takeWhile isspace ++ value.dropWhile isspace).length = value.length := by
      rw [List.takeWhile_append_dropWhile]
    rw [List.length_append] at hvalue
    simp only [← hfront, List.length_append, List.length_singleton]
    omega
  have hfirst : skipSpaces (fieldLine (key, value) ++ [13]) value.length (key.length + 1)
      = front.length := by
    have hskip := skipSpaces_eq (key ++ [58]) value [13]
    rw [← hfront, List.length_append]
    simpa [fieldLine] using hskip
  have hlast := trimSpaces_eq front (value.dropWhile isspace) (by decide : isspace 13 = true) []
  have hslice (n : Nat) : Storage.slice (front ++ value.dropWhile isspace ++ [13]) front.length
      (front.length + n) = (value.dropWhile isspace ++ [13]).take n := by
    rw [Storage.slice, List.append_assoc, List.take_length_add_append, List.drop_left]
  have hkeyText : (fieldLine (key, value) ++ [13]).take key.length = key := by
    simp [fieldLine]
  simp only [addLine, addHeader, hcolon, hlength, hkeyText, Nat.add_sub_cancel_left, hfirst]
  rw [htext, ← hsplit, Nat.add_sub_cancel_left, hlast, hslice, take_rdropWhile]
  rfl

/-! ## Sequences of header lines -/

/-- The value of the last field with the key. -/
def lastValue (fields : List (Bytes × Bytes)) (key : Bytes) : Option Bytes :=
  ((fields.filter (·.1 = key)).getLast?).map Prod.snd

theorem lastValue_concat (fields : List (Bytes × Bytes)) (field : Bytes × Bytes) (key : Bytes) :
    lastValue (fields ++ [field]) key
      = if field.1 = key then some field.2 else lastValue fields key := by
  unfold lastValue
  split
  · rename_i hkey
    simp [hkey]
  · rename_i hkey
    simp [hkey]

theorem lastValue_isSome_iff {key : Bytes} :
    (lastValue fields key).isSome ↔ key ∈ fields.map Prod.fst := by
  induction fields using List.reverseRecOn with
  | nil => simp [lastValue]
  | append_singleton fields field ih =>
      rw [lastValue_concat, List.map_append, List.mem_append, ← ih]
      split
      · rename_i hkey
        simp [hkey]
      · rename_i hkey
        simp [Ne.symm hkey]

/-- The map holds for each key what is stored of its last value. -/
theorem get?_foldl_addLine (hempty : r.headers = []) (hfields : ∀ f ∈ fields, IsField f)
    (key : Bytes) :
    HeaderMap.get? ((fields.map fieldLine).foldl addLine r).headers key
      = (lastValue fields key).map stored := by
  induction fields using List.reverseRecOn with
  | nil =>
      rw [List.map_nil, List.foldl_nil, hempty]
      rfl
  | append_singleton fields field ih =>
      have hfield := hfields field (by simp)
      have hbefore := ih fun f hf => hfields f (List.mem_append_left _ hf)
      rw [List.map_append, List.foldl_append, List.map_singleton, List.foldl_cons, List.foldl_nil,
        addLine_fieldLine _ hfield.key_colon, lastValue_concat, HeaderMap.get?_set, hbefore]
      split <;> rfl

/-- No header line follows: the next line is not complete or has no colon. -/
def HeadersOver (rest : Bytes) : Prop :=
  ∀ line more : Bytes, ¬ crlf <:+: line → rest = line ++ crlf ++ more → (58 : Byte) ∉ line

theorem headers_parse_of_over (t : Timestamp) (hstate : r.state = .parseHeader)
    (hrest : HeadersOver rest) : (r.parse rest t).2.1.headers = r.headers := by
  cases hcr : findCRLF rest with
  | none => rw [parse_of_no_line t r (findCRLF_eq_none_iff.1 hcr)]
  | some cr =>
      obtain ⟨line, more, rfl, -, hline⟩ := eq_of_findCRLF hcr
      rw [parse_end_line t more hstate hline (hrest line more hline rfl)]
      rfl

/-- The map has the keys that were sent and no others, each with its last value, trimmed. -/
structure StoresTrimmed (fields : List (Bytes × Bytes)) (r : HttpRequest) : Prop where
  value : ∀ key value, lastValue fields key = some value → r.header key = trim value
  keys : ∀ key, key ∈ r.headers.map Prod.fst ↔ key ∈ fields.map Prod.fst

/-- Header lines are stored with their last values trimmed if and only if every last value is white
    space altogether: of any other value the last character that is no white space is lost. -/
theorem storesTrimmed_iff (t : Timestamp) (hstate : r.state = .parseHeader)
    (hempty : r.headers = []) (hfields : ∀ f ∈ fields, IsField f) (hrest : HeadersOver rest) :
    StoresTrimmed fields (r.parse ((fields.map fieldLine).flatMap (· ++ crlf) ++ rest) t).2.1
      ↔ ∀ key value, lastValue fields key = some value → ∀ c ∈ value, isspace c = true := by
  have hlines : ∀ l ∈ fields.map fieldLine, IsHeaderLine l := by
    intro l hl
    obtain ⟨field, hfield, rfl⟩ := List.mem_map.1 hl
    exact (hfields field hfield).isHeaderLine
  have hheaders := headers_parse_of_over t
    ((foldl_addLine_state (fields.map fieldLine) r).trans hstate) hrest
  rw [← parse_lines t hlines rest hstate] at hheaders
  generalize (r.parse ((fields.map fieldLine).flatMap (· ++ crlf) ++ rest) t).2.1 = req
    at hheaders ⊢
  have hget (key : Bytes) : HeaderMap.get? req.headers key = (lastValue fields key).map stored := by
    rw [hheaders, get?_foldl_addLine hempty hfields]
  have hvalue {key value : Bytes} (hlast : lastValue fields key = some value) :
      req.header key = stored value := by
    rw [header, hget, hlast]
    rfl
  constructor
  · intro hstores key value hlast
    exact stored_eq_trim_iff.1 ((hvalue hlast).symm.trans (hstores.value key value hlast))
  · intro hspaces
    refine ⟨fun key value hlast => ?_, fun key => ?_⟩
    · exact (hvalue hlast).trans (stored_eq_trim_iff.2 (hspaces key value hlast))
    · rw [← HeaderMap.get?_isSome_iff, hget, Option.isSome_map, lastValue_isSome_iff]

theorem storesTrimmed_iff_blankValue :
    StoresTrimmed [([97], [32])] (({ new with state := .parseHeader } : HttpRequest).parse
        (([([97], [32])].map fieldLine).flatMap (· ++ crlf) ++ []) .zero).2.1
      ↔ ∀ key value, lastValue [([97], [32])] key = some value → ∀ c ∈ value, isspace c = true := by
  have hfields : ∀ f ∈ [([97], [32])], IsField f := by
    intro f hf
    obtain rfl := List.mem_singleton.1 hf
    exact ⟨by decide, by decide, by decide⟩
  have hrest : HeadersOver [] := fun line more _ hrest => absurd hrest (by simp [crlf])
  exact storesTrimmed_iff .zero rfl rfl hfields hrest

/-- The value `abc` is stored as `ab`. -/
theorem lastCharacter_lost :
    (new.parse (bytes "GET / HTTP/1.1\r\nHost: abc\r\n\r\n") .zero).2.1.header (bytes "Host")
        = bytes "ab" ∧
      ¬ StoresTrimmed [(bytes "Host", bytes " abc")]
        (new.parse (bytes "GET / HTTP/1.1\r\nHost: abc\r\n\r\n") .zero).2.1 := by
  have hparse : new.parse (bytes "GET / HTTP/1.1\r\nHost: abc\r\n\r\n") .zero
      = (true, { new with method := .GET, url := bytes "/", state := .down,
                          headers := [(bytes "Host", bytes "ab")] }, []) := by
    decide +kernel
  rw [hparse]
  refine ⟨by decide, fun hstores => ?_⟩
  have hvalue := hstores.value (bytes "Host") (bytes " abc") (by decide)
  exact absurd hvalue (by decide)

end HttpRequest
