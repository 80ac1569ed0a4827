import Mathlib.Data.List.Perm.Basic
import Mathlib.Data.List.ReduceOption
import Mathlib.Data.List.TakeWhile
import TypedProps.Options.Json
import TypedProps.Proofs.Json.Reading

/-!
# `TypedProps.Proofs.Options.Document`: options written and read back

`Writes o text` describes the documents that set every option to the value that it has in `o`: each
option once, under any of its names, in any order, its strings spelled in any way, with keys that
name no option and blanks in between. Such a document is read as `o` (`ofJson_of_writes`), and
`toJson` writes one of them (`writes_toJson`).
-/

set_option autoImplicit false

namespace TypedProps.Options

open TypedProps.Json TypedProps.Json.Reader

variable {o acc : Options} {a cs rest : List Char}

/-! ### What a document looks like -/

/-- A text that stands for the value of an option, with blanks in front of it. -/
def Value (o : Options) : Field → List Char → Prop
  | .hideWarnings, cs =>
    ∃ a, Blanks a ∧ cs = a ++ (if o.hideWarnings then "true" else "false").toList
  | .docMode, cs => Quotes cs o.docMode.name
  | .factoryNames, cs =>
    ∃ a es, Blanks a ∧ Sequence Quotes es o.factoryNames ∧ cs = a ++ '[' :: (es ++ [']'])
  | .functionalTypeNames, cs =>
    ∃ a es, Blanks a ∧ Sequence Quotes es o.functionalTypeNames ∧ cs = a ++ '[' :: (es ++ [']'])
  | .frameworkModule, cs => Quotes cs o.frameworkModule

/-- A key and what stands behind it: the value of the option that the key names, or any value if it
names none. -/
inductive Entry (o : Options) : List Char → Option Field → Prop
  | set {key b value : List Char} {name : String} {field : Field} (named : Quotes key name)
      (known : Field.ofKey? name = some field) (behind : Blanks b) (isValue : Value o field value) :
      Entry o (key ++ (b ++ ':' :: value)) (some field)
  | other {key b c value : List Char} {name : String} (named : Quotes key name)
      (unknown : Field.ofKey? name = none) (behind : Blanks b) (ahead : Blanks c)
      (isText : IsText .value value) :
      Entry o (key ++ (b ++ ':' :: (c ++ value))) none

/-- A document that sets every option to the value that it has in `o`. -/
def Writes (o : Options) (text : String) : Prop :=
  ∃ before entries after fields, Blanks before ∧ Blanks after ∧
    Sequence (Entry o) entries fields ∧ fields.reduceOption.Perm Field.all ∧
    text.toList = before ++ '{' :: (entries ++ '}' :: after)

/-! ### One entry -/

/-- Sets an option to the value that it has in `o`. -/
def copy (o acc : Options) : Field → Options
  | .hideWarnings => { acc with hideWarnings := o.hideWarnings }
  | .docMode => { acc with docMode := o.docMode }
  | .factoryNames => { acc with factoryNames := o.factoryNames }
  | .functionalTypeNames => { acc with functionalTypeNames := o.functionalTypeNames }
  | .frameworkModule => { acc with frameworkModule := o.frameworkModule }

/-- Options are set in any order. -/
theorem copy_comm (o acc : Options) (f g : Field) :
    copy o (copy o acc f) g = copy o (copy o acc g) f := by
  cases f <;> cases g <;> rfl

/-- Once all are set, nothing is left of what was there before. -/
theorem foldl_copy_all (o acc : Options) : Field.all.foldl (copy o) acc = o := rfl

theorem docModeValue_of_quotes {mode : DocMode} (quotes : Quotes cs mode.name) (rest : List Char) :
    docModeValue (cs ++ rest) = .ok (mode, rest) := by
  obtain ⟨before, spells⟩ := quotes
  simp only [List.append_assoc, List.cons_append, List.nil_append]
  unfold docModeValue
  rw [bind_of_ok (peek_solid before rfl _)]
  refine (bind_of_ok (string_of_spells spells rest)).trans ?_
  rw [DocMode.ofName?_name]
  rfl

/-- The value of an option is read to its end. -/
theorem setField_of_value {field : Field} (value : Value o field cs) (acc : Options)
    (rest : List Char) : setField acc field (cs ++ rest) = .ok (copy o acc field, rest) := by
  cases field with
  | hideWarnings =>
    obtain ⟨a, blanks, rfl⟩ := value
    rw [List.append_assoc]
    exact bind_of_ok (bool_append blanks o.hideWarnings rest)
  | docMode => exact bind_of_ok (docModeValue_of_quotes value rest)
  | factoryNames =>
    obtain ⟨a, es, blanks, sequence, rfl⟩ := value
    simp only [List.append_assoc, List.cons_append, List.nil_append]
    exact bind_of_ok (textList_of_sequence blanks sequence rest)
  | functionalTypeNames =>
    obtain ⟨a, es, blanks, sequence, rfl⟩ := value
    simp only [List.append_assoc, List.cons_append, List.nil_append]
    exact bind_of_ok (textList_of_sequence blanks sequence rest)
  | frameworkModule => exact bind_of_ok (text_of_quotes value rest)

/-- An entry sets its option, or nothing. It is the first one or stands behind a comma, which
`readsKey` says. -/
theorem nextEntry_of_entry (acc : Options) {option : Option Field} (entry : Entry o cs option)
    {first : Bool} (before : List Char) (readsKey : ∀ {key name} tail, Quotes key name →
      nextKey first (before ++ (key ++ tail)) = .ok (some name, tail))
    {done : List Field} (new : ∀ field ∈ option, field ∉ done) (ends : Ends rest) :
    nextEntry (acc, done, first) (before ++ (cs ++ rest))
      = .ok (((option.toList.foldl (copy o) acc, option.toList ++ done, false), true), rest) := by
  cases entry with
  | @set key b value name field named known behind isValue =>
    simp only [List.append_assoc, List.cons_append]
    rw [nextEntry, bind_of_ok (readsKey _ named)]
    dsimp only
    rw [known]
    dsimp only
    rw [if_neg (new field rfl)]
    exact (bind_of_ok (colon_append behind _)).trans
      (bind_of_ok (setField_of_value isValue acc rest))
  | @other key b c value name named unknown behind ahead isText =>
    simp only [List.append_assoc, List.cons_append]
    rw [nextEntry, bind_of_ok (readsKey _ named)]
    dsimp only
    rw [unknown]
    exact (bind_of_ok (colon_append behind _)).trans
      (bind_of_ok (skipValue_of_isText ahead isText ends))

/-! ### Whole documents -/

theorem nextEntry_end (done : List Field) (first : Bool) {b : List Char} (blanks : Blanks b)
    (rest : List Char) : nextEntry (acc, done, first) (b ++ '}' :: rest)
      = .ok (((acc, done, first), false), '}' :: rest) := by
  rw [nextEntry]
  exact bind_of_ok (nextKey_end first blanks rest)

/-- An entry has a key. -/
theorem Entry.length_pos {option : Option Field} (entry : Entry o cs option) : 0 < cs.length := by
  cases entry <;> grind

/-- Each option stands in a document once. -/
theorem new_of_nodup {option : Option Field} {options : List (Option Field)} {done : List Field}
    (nodup : ((option :: options).reduceOption ++ done).Nodup) :
    (∀ field ∈ option, field ∉ done) ∧ (options.reduceOption ++ (option.toList ++ done)).Nodup := by
  cases option with
  | none => exact ⟨nofun, nodup⟩
  | some field =>
    rw [List.reduceOption_cons_of_some, List.cons_append, List.nodup_cons] at nodup
    refine ⟨?_, List.perm_middle.nodup_iff.mpr (List.nodup_cons.mpr nodup)⟩
    rintro _ ⟨⟩ mem
    exact nodup.1 (List.mem_append_right _ mem)

theorem foldl_reduceOption_cons (option : Option Field) (options : List (Option Field)) :
    (option :: options).reduceOption.foldl (copy o) acc
      = options.reduceOption.foldl (copy o) (option.toList.foldl (copy o) acc) := by
  cases option <;> rfl

/-- Behind the first entry the loop goes once round for each comma. What is done so far is kept
apart from what comes. -/
theorem loop_nextEntry_of_further {options : List (Option Field)}
    (further : Further (Entry o) cs options) (acc : Options) {done : List Field}
    (nodup : (options.reduceOption ++ done).Nodup) (rest : List Char) :
    ∃ last, loop nextEntry (acc, done, false) (cs ++ '}' :: rest)
      = .ok ((options.reduceOption.foldl (copy o) acc, last), '}' :: rest) := by
  induction further generalizing acc done with
  | stop blanks => exact ⟨_, loop_stop (nextEntry_end done false blanks rest)⟩
  | @more b i cs option options blanks item more ih =>
    obtain ⟨new, nodup⟩ := new_of_nodup nodup
    obtain ⟨last, read⟩ := ih (option.toList.foldl (copy o) acc) nodup
    have step := nextEntry_of_entry acc item (b ++ [','])
      (fun tail quotes => by simpa using nextKey_comma blanks quotes tail) new
      (more.ends (.inr rfl) rest)
    rw [List.append_assoc, List.singleton_append] at step
    refine ⟨last, ?_⟩
    rw [List.append_assoc, List.cons_append, List.append_assoc,
      loop_more step (by simp; omega), read, foldl_reduceOption_cons]

theorem objectEntries_of_sequence {options : List (Option Field)}
    (sequence : Sequence (Entry o) cs options) (nodup : options.reduceOption.Nodup)
    (rest : List Char) : objectEntries (cs ++ '}' :: rest)
      = .ok (options.reduceOption.foldl (copy o) standard, rest) := by
  -- No option is set twice, so each entry finds its option among those not set yet.
  have read : ∃ last, loop nextEntry (standard, [], true) (cs ++ '}' :: rest)
      = .ok ((options.reduceOption.foldl (copy o) standard, last), '}' :: rest) := by
    cases sequence with
    | empty blanks => exact ⟨_, loop_stop (nextEntry_end [] true blanks rest)⟩
    | @begun i cs option options item further =>
      rw [← List.append_nil (option :: options).reduceOption] at nodup
      obtain ⟨new, nodup⟩ := new_of_nodup nodup
      obtain ⟨last, read⟩ :=
        loop_nextEntry_of_further further (option.toList.foldl (copy o) standard) nodup rest
      have step := nextEntry_of_entry standard item []
        (fun tail quotes => nextKey_first quotes tail) new (further.ends (.inr rfl) rest)
      rw [List.nil_append] at step
      have shorter : (cs ++ '}' :: rest).length < (i ++ (cs ++ '}' :: rest)).length := by
        have := item.length_pos
        simp only [List.length_append]
        omega
      refine ⟨last, ?_⟩
      rw [List.append_assoc, loop_more step shorter, read, foldl_reduceOption_cons]
  obtain ⟨last, read⟩ := read
  unfold objectEntries
  rw [bind_of_ok read]
  rfl

/-- A document that sets every option to the value that it has in `o` is read as `o`. -/
theorem ofJson_of_writes {text : String} (writes : Writes o text) : ofJson text = .ok o := by
  obtain ⟨before, entries, after, options, blanks, trailing, sequence, perm, text_eq⟩ := writes
  have all : Field.all.Nodup := by decide
  have entriesRead := objectEntries_of_sequence sequence (perm.nodup_iff.mpr all) after
  -- The order of the keys does not matter: each of them sets a field of its own.
  have copied : options.reduceOption.foldl (copy o) standard = o :=
    (perm.foldl_eq' (fun f _ g _ acc => copy_comm o acc f g) standard).trans
      (foldl_copy_all o standard)
  rw [copied] at entriesRead
  have read : value text.toList = .ok (o, after) := by
    rw [text_eq]
    unfold value
    rw [bind_of_ok (peek_solid blanks rfl _)]
    exact (bind_of_ok (advance_cons _ _)).trans entriesRead
  have left : after.dropWhile isBlank = [] := List.dropWhile_eq_nil_iff.mpr trailing
  show (value text.toList >>= _) = _
  rw [read]
  show (if (after.dropWhile isBlank).isEmpty = true then pure o else throw _) = _
  rw [left]
  rfl

/-! ### Writing -/

/-- A key in quotes, with no blanks around it. -/
theorem Entry.quote {name : String} {field : Field} (known : Field.ofKey? name = some field)
    (value : Value o field cs) : Entry o ((Text.quote name).toList ++ ':' :: cs) (some field) :=
  .set (b := []) (quotes_quote name) known nofun value

/-- The document that `toJson` writes, key by key. -/
theorem toList_toJson (o : Options) :
    o.toJson.toList = '{' :: ((Text.quote "hideWarnings").toList
        ++ ':' :: ((if o.hideWarnings then "true" else "false").toList
      ++ ',' :: ((Text.quote "includeJsDoc").toList ++ ':' :: ((Text.quote o.docMode.name).toList
      ++ ',' :: ((Text.quote "factoryNames").toList
        ++ ':' :: '[' :: ((",".intercalate (o.factoryNames.map Text.quote)).toList
      ++ ']' :: ',' :: ((Text.quote "functionalTypeNames").toList
        ++ ':' :: '[' :: ((",".intercalate (o.functionalTypeNames.map Text.quote)).toList
      ++ ']' :: ',' :: ((Text.quote "frameworkModule").toList
        ++ ':' :: ((Text.quote o.frameworkModule).toList ++ ['}'])))))))))) := by
  have first : "\x7b\"hideWarnings\":".toList
      = '{' :: ((Text.quote "hideWarnings").toList ++ [':']) := by
    rw [toList_quote]
    rfl
  have second : ",\"includeJsDoc\":".toList
      = ',' :: ((Text.quote "includeJsDoc").toList ++ [':']) := by
    rw [toList_quote]
    rfl
  have third : ",\"factoryNames\":".toList
      = ',' :: ((Text.quote "factoryNames").toList ++ [':']) := by
    rw [toList_quote]
    rfl
  have fourth : ",\"functionalTypeNames\":".toList
      = ',' :: ((Text.quote "functionalTypeNames").toList ++ [':']) := by
    rw [toList_quote]
    rfl
  have fifth : ",\"frameworkModule\":".toList
      = ',' :: ((Text.quote "frameworkModule").toList ++ [':']) := by
    rw [toList_quote]
    rfl
  have opening : "[".toList = ['['] := rfl
  have closing : "]".toList = [']'] := rfl
  have last : "\x7d".toList = ['}'] := rfl
  unfold toJson
  iterate 14 rw [String.toList_append]
  rw [first, second, third, fourth, fifth, opening, closing, last]
  simp only [List.append_assoc, List.cons_append, List.nil_append]

/-- What `toJson` writes is a document of its options. -/
theorem writes_toJson (o : Options) : Writes o o.toJson := by
  have first : Entry o ((Text.quote "hideWarnings").toList
      ++ ':' :: (if o.hideWarnings then "true" else "false").toList) (some .hideWarnings) :=
    .quote rfl ⟨[], nofun, rfl⟩
  have second : Entry o ((Text.quote "includeJsDoc").toList
      ++ ':' :: (Text.quote o.docMode.name).toList) (some .docMode) :=
    .quote rfl (quotes_quote _)
  have third : Entry o ((Text.quote "factoryNames").toList ++ ':' :: '['
      :: ((",".intercalate (o.factoryNames.map Text.quote)).toList ++ [']']))
      (some .factoryNames) :=
    .quote rfl ⟨[], _, nofun, sequence_quote _, rfl⟩
  have fourth : Entry o ((Text.quote "functionalTypeNames").toList ++ ':' :: '['
      :: ((",".intercalate (o.functionalTypeNames.map Text.quote)).toList ++ [']']))
      (some .functionalTypeNames) :=
    .quote rfl ⟨[], _, nofun, sequence_quote _, rfl⟩
  have fifth : Entry o ((Text.quote "frameworkModule").toList
      ++ ':' :: (Text.quote o.frameworkModule).toList) (some .frameworkModule) :=
    .quote rfl (quotes_quote _)
  have entries := Sequence.cons first
    (.cons second (.cons third (.cons fourth (.single fifth))))
  refine ⟨[], _, [], _, nofun, nofun, entries, .refl _, ?_⟩
  rw [toList_toJson]
  simp only [List.append_assoc, List.cons_append, List.nil_append]

/-- What is written is read back, from `toJson` and from every other document that says the same. -/
theorem ofJson_written (o : Options) :
    ofJson o.toJson = .ok o ∧ ∀ text, Writes o text → ofJson text = .ok o :=
  ⟨ofJson_of_writes (writes_toJson o), fun _ => ofJson_of_writes⟩

/-- The keys stand in another order, one of them under its other name, and a key that names no
option has a value with half of a surrogate pair in it. -/
theorem ofJson_permuted : ∃ o text, o = ⟨true, .asComment, ["a\"b"], [], "v"⟩ ∧
    text = "\x7b\"frameworkModule\" :\"\\u0076\",\"x\": [-1.5e3,\x7b\"y\":\"\\ud800\"\x7d]," ++
      "\"includeJSDoc\":\"as-comment\",\"factoryNames\":[\"a\\\"b\"]," ++
      "\"functionalTypeNames\":[ ],\"hideWarnings\":true\x7d" ∧
    Writes o text ∧ ofJson text = .ok o := by
  refine ⟨_, _, rfl, rfl, ?writes, (ofJson_written _).2 _ ?writes⟩
  -- The values that are not written as `quote` writes them: a string spelt with digits, a number
  -- and half of a surrogate pair in a list, a list with a blank in it.
  have name : Quotes ['\x22', '\\', 'u', '0', '0', '7', '6', '\x22'] "v" := by
    have spells : Spells ['\\', 'u', '0', '0', '7', '6'] ['v'] :=
      @Spells.digits ['0', '0', '7', '6'] [] [] 0x76 rfl rfl ⟨rfl, rfl⟩ .nil
    exact @Quotes.mk [] _ "v" nofun spells
  have number : IsText .value ['-', '1', '.', '5', 'e', '3'] :=
    .number (@IsNumber.mk ['-'] ['1'] ['.', '5'] ['e', '3'] (.inr rfl)
      (.inr ⟨⟨nofun, by simp⟩, by simp⟩) (.inr ⟨['5'], ⟨nofun, by simp⟩, rfl⟩)
      (.inr ⟨'e', [], ['3'], .inl rfl, .inl rfl, ⟨nofun, by simp⟩, rfl⟩))
  have half : IsText .value ['\x22', '\\', 'u', 'd', '8', '0', '0', '\x22'] :=
    .string (@IsBody.digits ['d', '8', '0', '0'] [] 0xD800 rfl rfl .nil)
  have object := IsText.object (.member (a := []) (b := []) (c := []) (d := []) nofun
    (spells_quoted ['y']).isBody nofun nofun half nofun)
  have list := IsText.list (.elements (a := []) (b := []) nofun number nofun
    (.element (a := []) (b := []) nofun object nofun))
  have blank : Blanks [' '] := by simp [Blanks, isBlank]
  have functional : Entry ⟨true, .asComment, ["a\"b"], [], "v"⟩ _ _ :=
    .quote (rfl : Field.ofKey? "functionalTypeNames" = some .functionalTypeNames)
      ⟨[], _, nofun, .empty blank, rfl⟩
  have hidden : Entry ⟨true, .asComment, ["a\"b"], [], "v"⟩ _ _ :=
    .quote (rfl : Field.ofKey? "hideWarnings" = some .hideWarnings) ⟨[], nofun, rfl⟩
  have entries := Sequence.cons
    (.set (quotes_quote "frameworkModule") rfl blank name)
    (.cons (.other (b := []) (quotes_quote "x") rfl nofun blank list)
    (.cons (.quote (rfl : Field.ofKey? "includeJSDoc" = some .docMode) (quotes_quote _))
    (.cons (.quote (rfl : Field.ofKey? "factoryNames" = some .factoryNames)
      ⟨[], _, nofun, sequence_quote _, rfl⟩)
    (.cons functional (.single hidden)))))
  refine ⟨[], _, [], _, nofun, nofun, entries, by decide, ?_⟩
  simp only [toList_quote, String.toList_append]
  rfl

end TypedProps.Options
