import TypedProps.Component.Declaration
import TypedProps.Grammar.Expressions
import TypedProps.Proofs.Property.PreOrder

/-!
# `TypedProps.Proofs.Grammar.Keys`: how keys are read

The key of a member of a type and the key of a property of an object are read by one rule, which
calls a numeral by different names: in a type by its spelling, in an object by the number.

* `keyName?_of_propertyKey`: a key is called as its token says (`keyName?`).
* `key?_of_objectProperty`, `key?_of_typeMember`: the keys in what is read from a script are such
  names, of one of the first tokens.
* `eq_or_eq_numeral_of_keyName?`: one token has the same name in both places, or is a numeral.
-/

set_option autoImplicit false

namespace TypedProps.Grammar

variable {α β : Type} {c c' : Cursor} {g : Phrases}

/-! ### Inversion -/

namespace Parser

theorem bind_eq_ok_iff {x : Parser α} {f : α → Parser β} {b : β} :
    (x >>= f) c = .ok (b, c') ↔ ∃ a d, x c = .ok (a, d) ∧ f a d = .ok (b, c') := by
  show (x c >>= fun (a, d) => f a d) = _ ↔ _
  cases x c with
  | error e => exact ⟨nofun, nofun⟩
  | ok r =>
    refine ⟨fun reads => ⟨r.1, r.2, rfl, reads⟩, ?_⟩
    rintro ⟨a, d, same, reads⟩
    cases same
    exact reads

theorem pure_eq_ok_iff {a b : α} : (pure a : Parser α) c = .ok (b, c') ↔ a = b ∧ c = c' := by
  show Except.ok (a, c) = _ ↔ _
  rw [Except.ok.injEq, Prod.mk.injEq]

theorem here_eq_ok_iff {d : Cursor} : here c = .ok (d, c') ↔ c = d ∧ c = c' :=
  pure_eq_ok_iff

theorem skip_eq_ok_iff {u : Unit} : skip c = .ok (u, c') ↔ c.next = c' := by
  show Except.ok ((), c.next) = _ ↔ _
  simp

/-- A mark that may stand here is stepped over if it does. -/
theorem eq_or_eq_next_of_eat {m : Mark} {b : Bool} (eats : eat m c = .ok (b, c')) :
    c' = if b then c.next else c := by
  unfold eat at eats
  obtain ⟨_, _, looked, eats⟩ := bind_eq_ok_iff.1 eats
  obtain ⟨rfl, rfl⟩ := here_eq_ok_iff.1 looked
  split at eats
  · obtain ⟨_, _, skipped, eats⟩ := bind_eq_ok_iff.1 eats
    obtain ⟨rfl, rfl⟩ := pure_eq_ok_iff.1 eats
    exact (skip_eq_ok_iff.1 skipped).symm
  · obtain ⟨rfl, rfl⟩ := pure_eq_ok_iff.1 eats
    rfl

/-- An attempt that comes to nothing does not move. -/
theorem eq_of_attempt {x : Parser α} (nothing : attempt x c = .ok (none, c')) : c' = c := by
  unfold attempt at nothing
  split at nothing <;> cases nothing
  rfl

/-- All answers of a parser have a property. -/
def Answers (x : Parser α) (post : α → Prop) : Prop := ∀ c c' a, x c = .ok (a, c') → post a

section

variable {post : α → Prop}

theorem Answers.pure {a : α} (holds : post a) : Answers (pure a) post := fun _ _ _ reads =>
  (pure_eq_ok_iff.1 reads).1 ▸ holds

/-- What is read first does not matter if the rest has such answers anyway. -/
theorem Answers.bind {x : Parser β} {f : β → Parser α} (rest : ∀ b, Answers (f b) post) :
    Answers (x >>= f) post := fun _ _ _ reads =>
  have ⟨_, _, _, reads⟩ := bind_eq_ok_iff.1 reads
  rest _ _ _ _ reads

theorem Answers.ite {condition : Prop} [Decidable condition] {x y : Parser α}
    (yes : Answers x post) (no : Answers y post) : Answers (if condition then x else y) post := by
  split
  · exact yes
  · exact no

theorem Answers.error {failure : Failure} : Answers (fun _ => .error failure : Parser α) post :=
  fun _ _ _ reads => by cases reads

theorem Answers.fail : Answers (fail : Parser α) post := fun _ _ _ reads => by cases reads

end

end Parser

open TypedProps.Grammar.Parser

/-! ### Keys -/

/-- What a token is called as a key; `none` if it is no key that is written out. `number` gives the
name that a number spells. -/
def keyName? (number : String → String) : Token.Kind → Option String
  | .word name _ | .string name => some name
  | .number spelling => some (number spelling)
  | _ => none

/-- A key is called as its token says. -/
theorem keyName?_of_propertyKey {number : String → String} {name : Option String}
    (reads : propertyKey number g c = .ok (name, c')) : name = keyName? number c.token.kind := by
  unfold propertyKey at reads
  obtain ⟨_, _, looked, reads⟩ := bind_eq_ok_iff.1 reads
  obtain ⟨rfl, rfl⟩ := here_eq_ok_iff.1 looked
  cases kind : c.token.kind with
  | word word escaped | string value | number spelling =>
    rw [kind] at reads
    obtain ⟨_, _, -, reads⟩ := bind_eq_ok_iff.1 reads
    exact (pure_eq_ok_iff.1 reads).1.symm
  | bigint | privateName =>
    rw [kind] at reads
    obtain ⟨_, _, -, reads⟩ := bind_eq_ok_iff.1 reads
    exact (pure_eq_ok_iff.1 reads).1.symm
  | mark m =>
    rw [kind] at reads
    -- An expression in brackets is a key without a name; no other mark begins one.
    cases m with
    | bracketOpen =>
      simp only [bind_eq_ok_iff, pure_eq_ok_iff] at reads
      obtain ⟨_, _, -, _, _, -, _, _, -, rfl, -⟩ := reads
      rfl
    | _ => cases reads
  | regex | endOfText | malformed =>
    rw [kind] at reads
    cases reads

/-- From a cursor, a parser answers with keys that are names of nearby tokens. -/
def KeyNear (number : String → String) (key? : α → Option String) (near : List Cursor) (c : Cursor)
    (x : Parser α) : Prop :=
  ∀ a c' name, x c = .ok (a, c') → key? a = some name →
    ∃ k ∈ near, keyName? number k.token.kind = some name

namespace KeyNear

variable {number : String → String} {key? : α → Option String} {near : List Cursor}

theorem of_keyless {x : Parser α} (keyless : Answers x (key? · = none)) :
    KeyNear number key? near c x := by
  intro a c' name reads named
  rw [keyless c c' a reads] at named
  cases named

theorem propertyKey {rest : Option String → Parser α} (here : c ∈ near)
    (keeps : ∀ name, Answers (rest name) (key? · = name)) :
    KeyNear number key? near c (propertyKey number g >>= rest) := by
  intro a c' name reads named
  obtain ⟨written, d, read, reads⟩ := bind_eq_ok_iff.1 reads
  refine ⟨c, here, ?_⟩
  rw [← keyName?_of_propertyKey read, ← keeps written _ _ _ reads, named]

theorem ite {condition : Prop} [Decidable condition] {x y : Parser α}
    (yes : KeyNear number key? near c x) (no : KeyNear number key? near c y) :
    KeyNear number key? near c (if condition then x else y) := by
  split
  · exact yes
  · exact no

theorem here {rest : Cursor → Parser α} (behind : KeyNear number key? near c (rest c)) :
    KeyNear number key? near c (here >>= rest) := by
  intro a c' name reads
  obtain ⟨_, _, looked, reads⟩ := bind_eq_ok_iff.1 reads
  obtain ⟨rfl, rfl⟩ := here_eq_ok_iff.1 looked
  exact behind a c' name reads

theorem skip {rest : Unit → Parser α} (behind : KeyNear number key? near c.next (rest ())) :
    KeyNear number key? near c (skip >>= rest) := by
  intro a c' name reads
  obtain ⟨_, _, skipped, reads⟩ := bind_eq_ok_iff.1 reads
  obtain rfl := skip_eq_ok_iff.1 skipped
  exact behind a c' name reads

theorem eat {m : Mark} {rest : Bool → Parser α}
    (eaten : KeyNear number key? near c.next (rest true))
    (missing : KeyNear number key? near c (rest false)) :
    KeyNear number key? near c (eat m >>= rest) := by
  intro a c' name reads
  obtain ⟨b, _, eats, reads⟩ := bind_eq_ok_iff.1 reads
  obtain rfl := eq_or_eq_next_of_eat eats
  cases b with
  | true => exact eaten a c' name reads
  | false => exact missing a c' name reads

theorem eat_ite {m : Mark} {x y : Parser α} (eaten : KeyNear number key? near c.next x)
    (missing : KeyNear number key? near c y) :
    KeyNear number key? near c (Parser.eat m >>= fun b => if b = true then x else y) :=
  .eat (by rwa [if_pos rfl]) (by rwa [if_neg Bool.false_ne_true])

/-- What an attempt reads is lost for the key, and if it reads nothing it does not move. -/
theorem attempt {x : Parser β} {rest : Option β → Parser α}
    (keyless : ∀ b, Answers (rest (some b)) (key? · = none))
    (behind : KeyNear number key? near c (rest none)) :
    KeyNear number key? near c (attempt x >>= rest) := by
  intro a c' name reads
  obtain ⟨b, _, tried, reads⟩ := bind_eq_ok_iff.1 reads
  cases b with
  | none =>
    rw [eq_of_attempt tried] at reads
    exact behind a c' name reads
  | some b => exact of_keyless (keyless b) a c' name reads

end KeyNear

/-- What an object has for a key is the name of one of the tokens that a property begins with. -/
theorem key?_of_objectProperty {entry : ObjectProperty} {name : String}
    (reads : objectProperty g c = .ok (entry, c')) (named : Descriptor.key? entry = some name) :
    ∃ k ∈ [c, c.next, c.next.next], keyName? Decimal.numeralText k.token.kind = some name := by
  have keyNear : KeyNear Decimal.numeralText Descriptor.key? [c, c.next, c.next.next] c
      (objectProperty g) := by
    unfold objectProperty
    refine .here (.eat_ite (.of_keyless (.bind fun _ => .pure rfl))
      (.ite ?accessor (.ite ?async ?rest)))
    case accessor =>
      exact .skip (.propertyKey (by simp) fun _ => .bind fun _ => .bind fun _ => .pure rfl)
    case async =>
      refine .skip (.eat ?_ ?_)
      all_goals exact .propertyKey (by simp) fun _ => .bind fun _ => .bind fun _ => .pure rfl
    case rest =>
      refine .eat_ite ?_ (.propertyKey (by simp) fun _ => .bind fun _ => ?_)
      · exact .propertyKey (by simp) fun _ => .bind fun _ => .bind fun _ => .pure rfl
      · refine .ite ?_ (.bind fun _ => .ite ?_ (.ite ?_ (.ite .error .fail)))
        all_goals exact .bind fun _ => .bind fun _ => .pure rfl
  exact keyNear entry c' name reads named

/-- The name of a member of a type is that of one of the tokens that the member begins with. -/
theorem key?_of_typeMember {member : Member} {name : String}
    (reads : typeMember g c = .ok (member, c')) (named : member.key? = some name) :
    ∃ k ∈ [c, c.next], keyName? id k.token.kind = some name := by
  have keyNear : KeyNear id Member.key? [c, c.next] c (typeMember g) := by
    unfold typeMember
    refine .here (.ite (.of_keyless ?signature) (.ite (.skip (.here ?_)) (.here ?_)))
    case signature =>
      exact .bind fun _ => .bind fun _ => .bind fun _ => .bind fun _ => .pure rfl
    -- The same with and without a modifier.
    all_goals
      refine .ite (.of_keyless ?_) (.attempt (fun _ => .bind fun _ => .pure rfl)
        (.propertyKey (by simp) fun _ => .bind fun _ => .bind fun _ => .ite ?_ ?_))
      · exact .bind fun _ => .bind fun _ => .pure rfl
      · exact .bind fun _ => .bind fun _ => .bind fun _ => .pure rfl
      · exact .bind fun _ => .bind fun _ => .bind fun _ => .pure rfl
  exact keyNear member c' name reads named

/-- One token has one name as the key of an object and as that of a type, unless it is a numeral. -/
theorem eq_or_eq_numeral_of_keyName? {kind : Token.Kind} {written declared : String}
    (inObject : keyName? Decimal.numeralText kind = some written)
    (inType : keyName? id kind = some declared) :
    written = declared ∨ kind = .number declared ∧ written = Decimal.numeralText declared := by
  cases kind with
  | word name escaped | string name =>
    obtain rfl := Option.some.inj inObject
    obtain rfl := Option.some.inj inType
    exact .inl rfl
  | number spelling =>
    obtain rfl := Option.some.inj inObject
    obtain rfl := Option.some.inj inType
    exact .inr ⟨rfl, rfl⟩
  | _ => cases inObject

/-- Two numerals of one number: in an object both have its name. -/
theorem numeralText_sixteen :
    Decimal.numeralText "16" = "16" ∧ Decimal.numeralText "0x10" = "16" := by
  decide +kernel

end TypedProps.Grammar
