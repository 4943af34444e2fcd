import CommandTree.Proofs.Names
import Mathlib.Data.List.Nodup

/-!
# Writing specs

How segments are written as text, and that reading gives them back.  The names of a segment are
separated by commas, the last one may be followed by parameters, and segments stand one or more
spaces apart.  A value stands as it is, or between quotes when it has neither the quote nor a
backslash (`WrittenValue`).

Not all segments can be written (`Canonical`): a name must hold nothing that ends it, only the last
name of a segment can have parameters, a key must hold nothing that ends it, and blanks at the ends
of names, keys and values are lost.

A reader is told what follows the piece that it reads: a segment is followed by the end of the text
or by a space (`Ends`).

Results:
* `readFrom_value`: a written value is read as that value.
* `readFrom_params`, `readFrom_segment`: parameters and segments are read as written.
* `parse_written`: reading what is written gives the segments, and a descriptor from its own text.
-/
namespace CommandTree.Segment

/-! ## How segments are written -/

/-- A character that may stand in a value without quotes. -/
def InPlain (c : Char) : Prop := c ≠ ',' ∧ c ≠ ')' ∧ c ≠ '"' ∧ c ≠ '\''

instance : DecidablePred InPlain := fun _ => inferInstanceAs (Decidable (_ ∧ _ ∧ _ ∧ _))

/-- A character that may stand in a key. -/
def InKey (c : Char) : Prop := c ≠ '=' ∧ c ≠ ',' ∧ c ≠ ')'

instance : DecidablePred InKey := fun _ => inferInstanceAs (Decidable (_ ∧ _ ∧ _))

/-- A value as it is, or between quotes that it does not hold. -/
inductive WrittenValue (value : String) : List Char → Prop
  | plain (plain : ∀ c ∈ value.toList, InPlain c) : WrittenValue value value.toList
  | quoted {q : Char} (quote : q = '"' ∨ q = '\'') (absent : q ∉ value.toList)
      (straight : '\\' ∉ value.toList) : WrittenValue value (q :: (value.toList ++ [q]))

/-- A key with its value. -/
inductive WrittenParam : String × String → List Char → Prop
  | pair {key value : String} {text : List Char} (written : WrittenValue value text) :
      WrittenParam (key, value) (key.toList ++ '=' :: text)

/-- The names of a segment, the last one as it is or with its parameters. -/
inductive WrittenSegment : Segment → List Char → Prop
  | bare {d : Descriptor} (nonempty : d.name ≠ "") (plain : d.params = {}) :
      WrittenSegment [d] d.name.toList
  | listed {d : Descriptor} {items : List (List Char)}
      (written : List.Forall₂ WrittenParam d.params.entries items) :
      WrittenSegment [d] (d.name.toList ++ '(' :: ([',', ' '].intercalate items ++ [')']))
  | sibling {d : Descriptor} {ds : Segment} {text : List Char} (rest : WrittenSegment ds text) :
      WrittenSegment (d :: ds) (d.name.toList ++ ',' :: text)

/-- Segments with one or more spaces between them. -/
inductive Written : List Segment → List Char → Prop
  | none : Written [] []
  | one {segment : Segment} {text : List Char} (written : WrittenSegment segment text) :
      Written [segment] text
  | more {segment : Segment} {rest : List Segment} {text behind : List Char} {spaces : Nat}
      (written : WrittenSegment segment text) (apart : 0 < spaces) (others : Written rest behind) :
      Written (segment :: rest) (text ++ (List.replicate spaces ' ' ++ behind))

/-- Parameters that can be written. -/
structure CanonicalParams (params : Params) : Prop where
  distinct : (params.entries.map Prod.fst).Nodup
  key : ∀ e ∈ params.entries, Text.trim e.1 = e.1 ∧ ∀ c ∈ e.1.toList, InKey c
  value : ∀ e ∈ params.entries, Text.trim e.2 = e.2

/-- A descriptor that can be written, if need be with an empty list of parameters. -/
structure CanonicalDescriptor (d : Descriptor) : Prop where
  trimmed : Text.trim d.name = d.name
  named : Named d
  params : CanonicalParams d.params

/-- Segments that can be written. -/
structure Canonical (segments : List Segment) : Prop where
  nonempty : ∀ segment ∈ segments, segment ≠ []
  descriptor : ∀ segment ∈ segments, ∀ d ∈ segment, CanonicalDescriptor d
  sibling : ∀ segment ∈ segments, ∀ d ∈ segment.dropLast, d.name ≠ "" ∧ d.params = {}

/-! ## Trimming -/

theorem trimmed_toList (text : String) : trimmed text.toList = Text.trim text := rfl

theorem trimmed_append {blanks : List Char} (blank : ∀ c ∈ blanks, Text.isBlank c = true)
    (cs : List Char) : trimmed (blanks ++ cs) = trimmed cs := by
  rw [trimmed, trimmed, Text.trimChars_append blank]

theorem isBlankRun_iff {cs : List Char} : isBlankRun cs = true ↔ trimmed cs = "" := by
  rw [isBlankRun, List.isEmpty_iff, trimmed, String.ofList_eq_empty_iff]

theorem isBlankRun_toList {text : String} (trimmed : Text.trim text = text) :
    isBlankRun text.toList = true ↔ text = "" := by
  rw [isBlankRun_iff, trimmed_toList, trimmed]

theorem isBlankRun_of_blank {cs : List Char} (blank : ∀ c ∈ cs, Text.isBlank c = true) :
    isBlankRun cs = true := by
  rw [isBlankRun, List.isEmpty_iff, Text.trimChars_nil_iff, List.all_eq_true]
  exact blank

/-! ## Reading on -/

theorem readFrom_of_more {d d' : Draft} {c : Char} (step : d.feed c = .more d') (cs : List Char) :
    readFrom d (c :: cs) = readFrom d' cs := by
  rw [readFrom, step]

theorem readFrom_of_done {d : Draft} {c : Char} {segment : Segment}
    (step : d.feed c = .done segment) (cs : List Char) : readFrom d (c :: cs) = (segment, cs) := by
  rw [readFrom, step]

theorem readFrom_run {f : List Char → Draft} {P : Char → Prop}
    (step : ∀ gathered c, P c → (f gathered).feed c = .more (f (gathered ++ [c]))) {cs : List Char}
    (good : ∀ c ∈ cs, P c) (gathered rest : List Char) :
    readFrom (f gathered) (cs ++ rest) = readFrom (f (gathered ++ cs)) rest := by
  induction cs generalizing gathered with
  | nil => rw [List.nil_append, List.append_nil]
  | cons c cs ih =>
    rw [List.forall_mem_cons] at good
    rw [List.cons_append, readFrom_of_more (step gathered c good.1), ih good.2, List.append_assoc,
      List.singleton_append]

theorem readFrom_name (d : Draft) {cs : List Char} (named : ∀ c ∈ cs, InName c)
    (rest : List Char) :
    readFrom { d with name := [], phase := .name } (cs ++ rest) =
      readFrom { d with name := cs, phase := .name } rest := by
  refine readFrom_run (f := fun name => { d with name, phase := .name }) ?_ named [] rest
  rintro name c ⟨space, paren, comma⟩
  simp only [Draft.feed, space, paren, comma, if_false]

theorem readFrom_key (d : Draft) {cs : List Char} (good : ∀ c ∈ cs, InKey c) (rest : List Char) :
    readFrom { d with phase := .key } (cs ++ rest) =
      readFrom { d with key := d.key ++ cs, phase := .key } rest := by
  refine readFrom_run (f := fun key => { d with key, phase := .key }) ?_ good d.key rest
  rintro key c ⟨equals, comma, paren⟩
  simp only [Draft.feed, equals, comma, paren, if_false]

theorem readFrom_plain (d : Draft) {cs : List Char} (plain : ∀ c ∈ cs, InPlain c)
    (rest : List Char) :
    readFrom { d with value := [], phase := .value } (cs ++ rest) =
      readFrom { d with value := cs, phase := .value } rest := by
  refine readFrom_run (f := fun value => { d with value, phase := .value }) ?_ plain [] rest
  rintro value c ⟨comma, paren, double, single⟩
  simp only [Draft.feed, comma, paren, double, single, or_self, if_false]

theorem readFrom_quoted (d : Draft) {q : Char} {cs : List Char}
    (inside : ∀ c ∈ cs, c ≠ '\\' ∧ c ≠ q) (rest : List Char) :
    readFrom { d with value := [], phase := .quoted q } (cs ++ rest) =
      readFrom { d with value := cs, phase := .quoted q } rest := by
  refine readFrom_run (f := fun value => { d with value, phase := .quoted q }) ?_ inside [] rest
  rintro value c ⟨straight, other⟩
  simp only [Draft.feed, straight, other, if_false]

/-! ## Parameters -/

def Draft.given (d : Draft) (key value : String) : Draft :=
  { d with params := d.params.set key value, key := [], value := value.toList }

/-- A written value is read as that value, whichever way the parameters go on. -/
theorem readFrom_value (d : Draft) {value : String} {text : List Char}
    (written : WrittenValue value text) (trim : Text.trim value = value) :
    ∃ d', (∀ rest, readFrom { d with value := [], phase := .value } (text ++ rest) =
        readFrom d' rest) ∧
      d'.feed ',' = .more { d.given (trimmed d.key) value with phase := .key } ∧
        d'.feed ')' = .more (d.given (trimmed d.key) value).close := by
  have kept : trimmed value.toList = value := trim
  cases written with
  | plain plain =>
    refine ⟨{ d with value := value.toList, phase := .value }, readFrom_plain d plain, ?_, ?_⟩
    · simp [Draft.feed, Draft.setParam, Draft.given, kept]
    · simp [Draft.feed, Draft.setParam, Draft.given, Draft.close, kept]
  | @quoted q quote absent straight =>
    refine ⟨{ d.given (trimmed d.key) value with phase := .afterQuotes }, fun rest => ?_, rfl, rfl⟩
    have inside : ∀ c ∈ value.toList, c ≠ '\\' ∧ c ≠ q := fun c hc =>
      ⟨fun h => straight (h ▸ hc), fun h => absent (h ▸ hc)⟩
    have bend : q ≠ '\\' := by rcases quote with rfl | rfl <;> decide
    have opening : ({ d with value := [], phase := .value } : Draft).feed q =
        .more { d with value := [], phase := .quoted q } := by
      rcases quote with rfl | rfl <;> rfl
    have closing : ({ d with value := value.toList, phase := .quoted q } : Draft).feed q =
        .more { d.given (trimmed d.key) value with phase := .afterQuotes } := by
      simp [Draft.feed, Draft.setParam, Draft.given, kept, bend]
    rw [List.cons_append, readFrom_of_more opening, List.append_assoc, readFrom_quoted d inside,
      List.singleton_append, readFrom_of_more closing]

theorem readFrom_param (d : Draft) (blank : ∀ c ∈ d.key, Text.isBlank c = true)
    {e : String × String} {item : List Char} (written : WrittenParam e item)
    (key : Text.trim e.1 = e.1 ∧ ∀ c ∈ e.1.toList, InKey c) (value : Text.trim e.2 = e.2) :
    ∃ d', (∀ rest, readFrom { d with phase := .key } (item ++ rest) = readFrom d' rest) ∧
      d'.feed ',' = .more { d.given e.1 e.2 with phase := .key } ∧
        d'.feed ')' = .more (d.given e.1 e.2).close := by
  obtain @⟨k, v, text, written⟩ := written
  obtain ⟨d', reads, comma, paren⟩ :=
    readFrom_value { d with key := d.key ++ k.toList } written value
  have named : trimmed (d.key ++ k.toList) = k := (trimmed_append blank _).trans key.1
  rw [named] at comma paren
  refine ⟨d', fun rest => ?_, comma, paren⟩
  rw [List.append_assoc, readFrom_key d key.2, List.cons_append, ← reads]
  exact readFrom_of_more rfl _

theorem setIn_of_not_mem {key : String} {es : List (String × String)}
    (new : key ∉ es.map Prod.fst) (value : String) :
    Params.setIn key value es = es ++ [(key, value)] := by
  induction es with
  | nil => rfl
  | cons e es ih =>
    rw [List.map_cons, List.mem_cons, not_or] at new
    rw [Params.setIn, if_neg (Ne.symm new.1), ih new.2, List.cons_append]

/-! ## Segments -/

/-- A segment ends where the text ends, or at a space; what is behind it. -/
inductive Ends : List Char → List Char → Prop
  | text : Ends [] []
  | space {behind : List Char} : Ends (' ' :: behind) behind

theorem Ends.closed {rest behind : List Char} (ends : Ends rest behind) (d : Draft) :
    readFrom d.close rest = (d.segment ++ [⟨trimmed d.name, d.params⟩], behind) := by
  cases ends with
  | text => rfl
  | space => exact readFrom_of_done rfl _

/-- Written parameters are read as they are and close the segment. -/
theorem readFrom_params {entries : List (String × String)} {items : List (List Char)}
    (written : List.Forall₂ WrittenParam entries items)
    (key : ∀ e ∈ entries, Text.trim e.1 = e.1 ∧ ∀ c ∈ e.1.toList, InKey c)
    (value : ∀ e ∈ entries, Text.trim e.2 = e.2) {rest behind : List Char}
    (ends : Ends rest behind) (d : Draft) (blank : ∀ c ∈ d.key, Text.isBlank c = true)
    (distinct : ((d.params.entries ++ entries).map Prod.fst).Nodup) :
    readFrom { d with phase := .key } ([',', ' '].intercalate items ++ ')' :: rest) =
      (d.segment ++ [⟨trimmed d.name, ⟨d.params.entries ++ entries⟩⟩], behind) := by
  induction written generalizing d with
  | nil =>
    have closing : ({ d with phase := .key } : Draft).feed ')' =
        .more { d with key := [] }.close := by
      simp [Draft.feed, Draft.setBareKey, Draft.close, isBlankRun_of_blank blank]
    rw [List.append_nil]
    exact (readFrom_of_more closing rest).trans (ends.closed _)
  | @cons e item entries items written others ih =>
    rw [List.forall_mem_cons] at key value
    obtain ⟨d', reads, comma, paren⟩ := readFrom_param d blank written key.1 value.1
    have new : e.1 ∉ d.params.entries.map Prod.fst := by
      rw [List.map_append, List.map_cons] at distinct
      exact fun old => (List.nodup_append.1 distinct).2.2 _ old _ List.mem_cons_self rfl
    have given : (d.given e.1 e.2).params.entries = d.params.entries ++ [e] :=
      setIn_of_not_mem new e.2
    cases others with
    | nil =>
      rw [List.intercalate_singleton, reads, readFrom_of_more paren, ends.closed]
      show (d.segment ++ [⟨trimmed d.name, ⟨(d.given e.1 e.2).params.entries⟩⟩], behind) = _
      rw [given]
    | @cons e' item' entries items second others =>
      -- the space behind the comma is gathered into the next key and trimmed off with it
      have space : ({ d.given e.1 e.2 with phase := .key } : Draft).feed ' ' =
          .more { d.given e.1 e.2 with key := [' '], phase := .key } := rfl
      have later := ih key.2 value.2 { d.given e.1 e.2 with key := [' '] }
        (by simp [show Text.isBlank ' ' = true by decide])
        (by simpa [given, List.append_assoc] using distinct)
      rw [List.intercalate_cons_cons, List.append_assoc, List.append_assoc, reads,
        List.cons_append, readFrom_of_more comma, List.singleton_append, readFrom_of_more space,
        later]
      show (d.segment ++ [⟨trimmed d.name, ⟨(d.given e.1 e.2).params.entries ++ _⟩⟩], behind) = _
      rw [given, List.append_assoc, List.singleton_append]

theorem WrittenSegment.ne_nil {segment : Segment} {text : List Char}
    (written : WrittenSegment segment text) : segment ≠ [] := by
  cases written <;> exact List.cons_ne_nil _ _

theorem CanonicalDescriptor.isBlankRun_name {d : Descriptor} (h : CanonicalDescriptor d)
    (nonempty : d.name ≠ "") : isBlankRun d.name.toList = false := by
  simpa using mt (isBlankRun_toList h.trimmed).1 nonempty

theorem CanonicalDescriptor.trimmed_name {d : Descriptor} (h : CanonicalDescriptor d) :
    Segment.trimmed d.name.toList = d.name := h.trimmed

theorem addBare_name {d : Descriptor} (canonical : CanonicalDescriptor d) (nonempty : d.name ≠ "")
    (plain : d.params = {}) (before : Segment) :
    ({ segment := before, name := d.name.toList } : Draft).addBare =
      { segment := before ++ [d], name := d.name.toList } := by
  obtain ⟨name, params⟩ := d
  obtain rfl : params = {} := plain
  rw [Draft.addBare, canonical.isBlankRun_name nonempty, canonical.trimmed_name]
  rfl

/-- A written segment is read as it is. -/
theorem readFrom_segment {segment : Segment} {text : List Char}
    (written : WrittenSegment segment text) (canonical : ∀ d ∈ segment, CanonicalDescriptor d)
    (sibling : ∀ d ∈ segment.dropLast, d.name ≠ "" ∧ d.params = {}) {rest behind : List Char}
    (ends : Ends rest behind) (before : Segment) :
    readFrom { segment := before } (text ++ rest) = (before ++ segment, behind) := by
  have run (before : Segment) {d : Descriptor} (named : Named d) (rest : List Char) :
      readFrom { segment := before } (d.name.toList ++ rest) =
        readFrom { segment := before, name := d.name.toList } rest :=
    readFrom_name { segment := before } named rest
  induction written generalizing before with
  | @bare d nonempty plain =>
    have here := canonical d List.mem_cons_self
    have added := congrArg Draft.segment (addBare_name here nonempty plain before)
    rw [run before here.named]
    cases ends with
    | text => exact Prod.ext added rfl
    | space =>
      refine (readFrom_of_done ?_ _).trans (Prod.ext added rfl)
      simp [Draft.feed, here.isBlankRun_name nonempty]
  | @listed d items written =>
    have here := canonical d List.mem_cons_self
    have read := readFrom_params written here.params.key here.params.value ends
      { segment := before, name := d.name.toList } (by simp) here.params.distinct
    rw [List.append_assoc, run before here.named, List.cons_append, List.append_assoc,
      List.singleton_append, readFrom_of_more rfl]
    refine read.trans (Prod.ext ?_ rfl)
    show before ++ [⟨trimmed d.name.toList, ⟨[] ++ d.params.entries⟩⟩] = before ++ [d]
    rw [here.trimmed_name, List.nil_append]
  | @sibling d ds text rest ih =>
    rw [List.forall_mem_cons] at canonical
    rw [List.dropLast_cons_of_ne_nil rest.ne_nil, List.forall_mem_cons] at sibling
    have comma : ({ segment := before, name := d.name.toList } : Draft).feed ',' =
        .more { segment := before ++ [d] } := by
      have added := addBare_name canonical.1 sibling.1.1 sibling.1.2 before
      show Step.more { Draft.addBare _ with name := [] } = _
      rw [added]
    rw [List.append_assoc, run before canonical.1.named, List.cons_append,
      readFrom_of_more comma, ih canonical.2 sibling.2, List.append_assoc, List.singleton_append]

/-! ## Whole texts -/

theorem all_of_read {cs rest : List Char} {segment : Segment} (nonempty : segment ≠ [])
    (read_eq : read cs = (segment, rest)) : all cs = segment :: all rest := by
  cases cs with
  | nil =>
    cases read_eq
    exact absurd rfl nonempty
  | cons c cs => rw [all_cons, read_eq, if_neg nonempty]

theorem all_spaces (spaces : Nat) (cs : List Char) :
    all (List.replicate spaces ' ' ++ cs) = all cs := by
  have skip (cs : List Char) : all (' ' :: cs) = all cs := by
    have same : read (' ' :: cs) = read cs := readFrom_of_more rfl cs
    rw [all_cons, same]
    cases cs with
    | nil => rw [show read [] = ([], []) from rfl, if_pos rfl, all]
    | cons c cs => rw [all_cons]
  induction spaces with
  | zero => rfl
  | succ spaces ih => rw [List.replicate_succ, List.cons_append, skip, ih]

theorem Canonical.of_cons {segment : Segment} {rest : List Segment}
    (h : Canonical (segment :: rest)) : Canonical rest where
  nonempty s hs := h.nonempty s (List.mem_cons_of_mem _ hs)
  descriptor s hs := h.descriptor s (List.mem_cons_of_mem _ hs)
  sibling s hs := h.sibling s (List.mem_cons_of_mem _ hs)

theorem Canonical.read_eq {segment : Segment} {rest : List Segment}
    (h : Canonical (segment :: rest)) {text : List Char} (written : WrittenSegment segment text)
    {cs behind : List Char} (ends : Ends cs behind) : read (text ++ cs) = (segment, behind) :=
  readFrom_segment written (h.descriptor segment List.mem_cons_self)
    (h.sibling segment List.mem_cons_self) ends []

/-- Written segments are read as they are. -/
theorem all_written {segments : List Segment} {text : List Char} (written : Written segments text)
    (canonical : Canonical segments) : all text = segments := by
  induction written with
  | none => simp [all]
  | @one segment text written =>
    have read := canonical.read_eq written .text
    rw [List.append_nil] at read
    rw [all_of_read written.ne_nil read]
    simp [all]
  | @more segment rest text behind spaces written apart others ih =>
    obtain ⟨spaces, rfl⟩ := Nat.exists_eq_add_of_le' apart
    have space : Ends (' ' :: (List.replicate spaces ' ' ++ behind))
      (List.replicate spaces ' ' ++ behind) := .space
    have read := canonical.read_eq written space
    rw [List.replicate_succ, List.cons_append, all_of_read written.ne_nil read, all_spaces,
      ih canonical.of_cons]

/-- The text of a descriptor is a way to write it, when its values need no quotes. -/
theorem written_text {d : Descriptor}
    (plain : ∀ e ∈ d.params.entries, ∀ c ∈ e.2.toList, InPlain c) :
    Written [[d]] d.text.toList := by
  have items : List.Forall₂ WrittenParam d.params.entries
      (d.params.entries.map fun e => (e.1 ++ "=" ++ e.2).toList) := by
    rw [List.forall₂_map_right_iff, List.forall₂_same]
    intro e he
    have pair : WrittenParam e (e.1.toList ++ '=' :: e.2.toList) := .pair (.plain (plain e he))
    simpa using pair
  have text : d.text.toList = d.name.toList ++ '(' ::
      ([',', ' '].intercalate (d.params.entries.map fun e => (e.1 ++ "=" ++ e.2).toList) ++
        [')']) := by
    simp [Descriptor.text, String.toList_intercalate, Function.comp_def]
  rw [text]
  exact .one (.listed items)

/-- **Reading what is written gives the segments back**, with the same names, and the same
parameters in the same order; and the text of a descriptor whose values need no quotes is read as
that descriptor. -/
theorem parse_written :
    (∀ (segments : List Segment) (text : String), Canonical segments →
      Written segments text.toList → parse text = segments) ∧
      ∀ d : Descriptor, CanonicalDescriptor d →
        (∀ e ∈ d.params.entries, ∀ c ∈ e.2.toList, InPlain c) → parse d.text = [[d]] := by
  refine ⟨fun segments text canonical written => all_written written canonical, ?_⟩
  intro d canonical plain
  refine all_written (written_text plain) ⟨?_, ?_, ?_⟩
  · simp
  · simpa using canonical
  · simp

/-- A choice of literals, a switch whose default holds a separator, a parenthesis and a quote, and a
name that is empty but for its parameters. -/
def boxSegments : List Segment :=
  [[⟨"put|p", {}⟩, ⟨"take", {}⟩],
    [⟨"@string", ⟨[("switch", "t"), ("default", "it's, (old) box")]⟩⟩],
    [⟨"to", {}⟩, ⟨"", ⟨[("x", "1 or 2"), ("y", "")]⟩⟩]]

theorem forall_mem_of_all {p : Char → Prop} [DecidablePred p] {cs : List Char}
    (h : (cs.all fun c => decide (p c)) = true) : ∀ c ∈ cs, p c := by simpa using h

theorem boxSegments_canonical : Canonical boxSegments where
  nonempty := by decide
  descriptor := by
    have params : ∀ segment ∈ boxSegments, ∀ d ∈ segment,
        (d.params.entries.map Prod.fst).Nodup ∧ (∀ e ∈ d.params.entries, Text.trim e.1 = e.1 ∧
          (e.1.toList.all fun c => InKey c) = true) ∧
            ∀ e ∈ d.params.entries, Text.trim e.2 = e.2 := by decide
    have names : ∀ segment ∈ boxSegments, ∀ d ∈ segment, Text.trim d.name = d.name ∧
        (d.name.toList.all fun c => InName c) = true := by decide
    intro segment hs d hd
    obtain ⟨distinct, key, value⟩ := params segment hs d hd
    obtain ⟨trimmed, clean⟩ := names segment hs d hd
    exact ⟨trimmed, forall_mem_of_all clean, distinct,
      fun e he => ⟨(key e he).1, forall_mem_of_all (key e he).2⟩, value⟩
  sibling := by decide

/-- The text with the default between quotes, and two spaces behind the first segment. -/
theorem boxSegments_written : Written boxSegments
    "put|p,take  @string(switch=t, default=\"it's, (old) box\") to,(x=1 or 2, y=)".toList := by
  have quoted : WrittenValue "it's, (old) box" ('"' :: ("it's, (old) box".toList ++ ['"'])) :=
    .quoted (.inl rfl) (by decide) (by decide)
  have switch : WrittenValue "t" "t".toList := .plain (forall_mem_of_all (by decide))
  have plain : WrittenValue "1 or 2" "1 or 2".toList := .plain (forall_mem_of_all (by decide))
  have empty : WrittenValue "" "".toList := .plain (by simp)
  have first : WrittenSegment [⟨"put|p", {}⟩, ⟨"take", {}⟩] _ :=
    .sibling (.bare (by decide) rfl)
  have second : WrittenSegment
      [⟨"@string", ⟨[("switch", "t"), ("default", "it's, (old) box")]⟩⟩] _ :=
    .listed (.cons (.pair switch) (.cons (.pair quoted) .nil))
  have third : WrittenSegment [⟨"to", {}⟩, ⟨"", ⟨[("x", "1 or 2"), ("y", "")]⟩⟩] _ :=
    .sibling (.listed (.cons (.pair plain) (.cons (.pair empty) .nil)))
  have written : Written boxSegments _ :=
    .more first Nat.two_pos (.more second Nat.one_pos (.one third))
  exact (congrArg (Written boxSegments) (by decide)).mp written

/-- The text is read as the segments, and the text of the last descriptor as that descriptor. -/
theorem parse_written_box :
    Canonical boxSegments ∧
      parse "put|p,take  @string(switch=t, default=\"it's, (old) box\") to,(x=1 or 2, y=)" =
        boxSegments ∧
      (⟨"", ⟨[("x", "1 or 2"), ("y", "")]⟩⟩ : Descriptor).text = "(x=1 or 2, y=)" ∧
        parse (⟨"", ⟨[("x", "1 or 2"), ("y", "")]⟩⟩ : Descriptor).text =
          [[⟨"", ⟨[("x", "1 or 2"), ("y", "")]⟩⟩]] := by
  refine ⟨boxSegments_canonical, parse_written.1 _ _ boxSegments_canonical boxSegments_written,
    by decide, parse_written.2 _ ?_ ?_⟩
  · exact boxSegments_canonical.descriptor _ (.tail _ (.tail _ (.head _))) _ (.tail _ (.head _))
  · have plain : ([("x", "1 or 2"), ("y", "")].all fun e => e.2.toList.all fun c => InPlain c) =
        true := by decide
    exact fun e he => forall_mem_of_all (List.all_eq_true.1 plain e he)

end CommandTree.Segment
