import JoinPlan.Filter.Token

/-!
# The grammar of tokens

A token is the mark of an operator with an operand behind it. Marks overlap: one is empty, and two
begin with another. This file supplies that a token is read in one way all the same, and that
reading loses nothing.

> `Operator.Fits`: an operand can stand behind a mark when the two do not begin with another mark
> that is longer.
>
> `Operator.Says`: four operators compare with a value, two look for its text, one asks for it.

Reading takes a token apart into a mark and an operand that fits it (`mark_append_operand`,
`fits_ofChars`), and where the operand fits, what was written is read again
(`ofChars_mark_append`). So there is one such pair for each token (`ofChars_eq_iff`). A type comes
in only after that: it casts the operand or refuses it, and leaves the operator alone.
-/

namespace JoinPlan

namespace Operator

/-- Whether an operand can stand behind the mark of an operator. Behind `<` and `>` an equals sign
makes a longer mark, and behind the empty mark each of the others does. -/
def Fits : Operator → List Char → Prop
  | .less, operand | .greater, operand => operand.head? ≠ some '='
  | .equal, operand => ∀ c ∈ operand.head?, c ∉ ['<', '>', '~', ':']
  | _, _ => True

/-- What is read as the operand fits the mark that is read. -/
theorem fits_ofChars (cs : List Char) : (ofChars cs).1.Fits (ofChars cs).2 := by
  have hhead : ∀ {operand : List Char} {c : Char}, (∀ tail, operand ≠ c :: tail) →
      operand.head? ≠ some c := by
    intro operand c hne hsome
    obtain ⟨tail, rfl⟩ := List.head?_eq_some_iff.mp hsome
    exact hne tail rfl
  unfold ofChars
  split <;> try trivial
  · next hlonger => exact hhead hlonger
  · next hlonger => exact hhead hlonger
  · next _ hless _ hgreater hexact hsubstring =>
    intro c hsome hmark
    simp only [List.mem_cons, List.not_mem_nil, or_false] at hmark
    rcases hmark with rfl | rfl | rfl | rfl
    · exact hhead hless hsome
    · exact hhead hgreater hsome
    · exact hhead hexact hsome
    · exact hhead hsubstring hsome

/-- A mark with an operand that fits it is read as this mark and this operand. -/
theorem ofChars_mark_append {operator : Operator} {operand : List Char}
    (h : operator.Fits operand) :
    ofChars (operator.mark.toList ++ operand) = (operator, operand) := by
  cases operator with
  | lessOrEqual | greaterOrEqual | exact | substring => rfl
  | less | greater =>
    -- The operand does not make the mark longer, so the shorter one is taken.
    cases operand with
    | nil => rfl
    | cons c rest =>
      have hc : c ≠ '=' := fun hc => h (congrArg some hc)
      simp [mark, ofChars, hc]
  | equal =>
    cases operand with
    | nil => rfl
    | cons c rest =>
      have hc : c ∉ ['<', '>', '~', ':'] := h c rfl
      simp only [List.mem_cons, List.not_mem_nil, or_false, not_or] at hc
      simp [mark, ofChars, hc]

/-- A token is read in one way: as the mark and the operand that it is made of and that fit. -/
theorem ofChars_eq_iff {cs operand : List Char} {operator : Operator} :
    ofChars cs = (operator, operand) ↔
      operator.mark.toList ++ operand = cs ∧ operator.Fits operand := by
  constructor
  · intro hread
    have hwritten := mark_append_operand cs
    have hfits := fits_ofChars cs
    rw [hread] at hwritten hfits
    exact ⟨hwritten, hfits⟩
  · rintro ⟨rfl, hfits⟩
    exact ofChars_mark_append hfits

/-- A token is made of one mark and one operand that fit. -/
theorem eq_of_mark_append {a b : Operator} {s t : String} (hs : a.Fits s.toList)
    (ht : b.Fits t.toList) (h : a.mark ++ s = b.mark ++ t) : a = b ∧ s = t := by
  have hread : (a, s.toList) = (b, t.toList) := by
    rw [← ofChars_mark_append hs, ← ofChars_mark_append ht, ← String.toList_append,
      ← String.toList_append, h]
  obtain ⟨rfl, htext⟩ := Prod.mk.inj hread
  exact ⟨rfl, String.toList_inj.mp htext⟩

end Operator

/-! ## What an operator says -/

/-- The text that stands for a value: a string is its own text, any other value has its JSON. -/
inductive Value.HasText : Value → String → Prop
  | string (s : String) : HasText (.string s) s
  | json {value : Value} (h : ∀ s, value ≠ .string s) : HasText value value.compact

theorem Value.hasText_iff {value : Value} {text : String} :
    value.HasText text ↔ text = Operator.patternText value := by
  constructor
  · rintro (_ | hstring)
    · rfl
    · unfold Operator.patternText
      split
      · next s => exact absurd rfl (hstring s)
      · rfl
  · rintro rfl
    unfold Operator.patternText
    split
    · exact .string _
    · next hstring => exact .json hstring

namespace Operator

/-- An operator with a value says a predicate. -/
inductive Says : Operator → Value → Predicate → Prop
  | lessOrEqual (bound : Value) : Says .lessOrEqual bound (.compare .lessOrEqual bound)
  | less (bound : Value) : Says .less bound (.compare .less bound)
  | greaterOrEqual (bound : Value) : Says .greaterOrEqual bound (.compare .greaterOrEqual bound)
  | greater (bound : Value) : Says .greater bound (.compare .greater bound)
  | exact {value : Value} {text : String} (h : value.HasText text) :
    Says .exact value (.pattern .exact text)
  | substring {value : Value} {text : String} (h : value.HasText text) :
    Says .substring value (.pattern .substring text)
  | equal (operand : Value) : Says .equal operand (.equals operand)

theorem says_iff {operator : Operator} {value : Value} {predicate : Predicate} :
    operator.Says value predicate ↔ predicate = operator.predicate value := by
  constructor
  · intro h
    cases h with
    | exact htext | substring htext => rw [Value.hasText_iff.mp htext]; rfl
    | _ => rfl
  · rintro rfl
    cases operator with
    | exact => exact .exact (Value.hasText_iff.mpr rfl)
    | substring => exact .substring (Value.hasText_iff.mpr rfl)
    | lessOrEqual => exact .lessOrEqual _
    | less => exact .less _
    | greaterOrEqual => exact .greaterOrEqual _
    | greater => exact .greater _
    | equal => exact .equal _

/-- What is said of a text shows the operator and the text. -/
theorem Says.string_inj {a b : Operator} {s t : String} {predicate : Predicate}
    (ha : a.Says (.string s) predicate) (hb : b.Says (.string t) predicate) : a = b ∧ s = t := by
  have h := (says_iff.mp ha).symm.trans (says_iff.mp hb)
  cases a <;> cases b <;> simp_all [Operator.predicate, patternText]

end Operator

theorem castOr_eq_error_iff {type : ScalarType} {text : String} {failure : CastFailure} :
    castOr (some type) text = .error failure ↔
      type.cast? text = none ∧ failure = ⟨"", type.name, text⟩ := by
  unfold castOr
  cases hcast : type.cast? text <;> simp [hcast, eq_comm]

theorem castOr_eq_ok_iff {type : ScalarType} {text : String} {value : Value} :
    castOr (some type) text = .ok value ↔ type.cast? text = some value := by
  unfold castOr
  cases hcast : type.cast? text <;> simp [hcast]

namespace Predicate

/-- A token is read by its operator and its operand, which is cast. -/
theorem ofToken_of_ofChars {token : String} {operator : Operator} {operand : List Char}
    (h : Operator.ofChars token.toList = (operator, operand)) (type : Option ScalarType) :
    ofToken token type = (castOr type (.ofList operand)).map operator.predicate := by
  unfold ofToken
  rw [h]

/-- The grammar of tokens is unambiguous and loses nothing. Every token is the mark of an operator
with an operand behind it that fits, and without a type it is read as what the two say. Under a type
it is refused exactly when the type does not accept the operand, and otherwise read as what the same
operator says with the value that the type gives. What is written as a mark and a text is read as
what the two say exactly when the text fits. -/
theorem ofToken_reads_written :
    (∀ token, ∃ (operator : Operator) (operand : String),
      operator.mark ++ operand = token ∧ operator.Fits operand.toList ∧
      (∃ predicate, ofToken token none = .ok predicate ∧
        operator.Says (.string operand) predicate) ∧
      ∀ type,
        (∀ failure, ofToken token (some type) = .error failure ↔
          type.cast? operand = none ∧ failure = ⟨"", type.name, operand⟩) ∧
        ∀ predicate, ofToken token (some type) = .ok predicate ↔
          ∃ value, type.cast? operand = some value ∧ operator.Says value predicate) ∧
    ∀ (operator : Operator) (text : String),
      (∃ predicate, ofToken (operator.mark ++ text) none = .ok predicate ∧
        operator.Says (.string text) predicate) ↔ operator.Fits text.toList := by
  refine ⟨fun token => ?_, fun operator text => ?_⟩
  · rcases hparts : Operator.ofChars token.toList with ⟨operator, cs⟩
    obtain ⟨hwritten, hfits⟩ := Operator.ofChars_eq_iff.mp hparts
    have hread := ofToken_of_ofChars hparts
    refine ⟨operator, String.ofList cs, ?_, ?_, ⟨_, hread none, Operator.says_iff.mpr rfl⟩,
      fun type => ⟨fun failure => ?_, fun predicate => ?_⟩⟩
    · rw [← String.toList_inj, String.toList_append, String.toList_ofList, hwritten]
    · rwa [String.toList_ofList]
    · rw [hread, ← castOr_eq_error_iff]
      cases castOr (some type) (String.ofList cs) <;> simp [Except.map]
    · rw [hread]
      simp only [← castOr_eq_ok_iff, Operator.says_iff]
      cases castOr (some type) (String.ofList cs) <;> simp [Except.map, eq_comm]
  · constructor
    · rintro ⟨predicate, hread, hsays⟩
      rcases hparts : Operator.ofChars (operator.mark ++ text).toList with ⟨operator', cs⟩
      have hread' := ofToken_of_ofChars hparts none
      rw [hread] at hread'
      have hsays' : operator'.Says (.string (.ofList cs)) predicate :=
        Operator.says_iff.mpr (Except.ok.inj hread')
      obtain ⟨rfl, rfl⟩ := hsays.string_inj hsays'
      rw [String.toList_ofList]
      exact (Operator.ofChars_eq_iff.mp hparts).2
    · intro hfits
      have hparts : Operator.ofChars (operator.mark ++ text).toList = (operator, text.toList) := by
        rw [String.toList_append]
        exact Operator.ofChars_mark_append hfits
      refine ⟨_, ofToken_of_ofChars hparts none, Operator.says_iff.mpr ?_⟩
      rw [String.ofList_toList]

/-- Each mark with a number behind it: as the text that it is, and as the number that it stands
for. A comparison with a word is refused where a number is asked for, and an equals sign makes the
mark in front of it longer. -/
theorem ofToken_reads_written_marks :
    (ofToken "<=007" none = .ok (.compare .lessOrEqual (.string "007")) ∧
      ofToken "<007" none = .ok (.compare .less (.string "007")) ∧
      ofToken ">=007" none = .ok (.compare .greaterOrEqual (.string "007")) ∧
      ofToken ">007" none = .ok (.compare .greater (.string "007")) ∧
      ofToken "~007" none = .ok (.pattern .exact "007") ∧
      ofToken ":007" none = .ok (.pattern .substring "007") ∧
      ofToken "007" none = .ok (.equals (.string "007"))) ∧
    (ofToken "<=007" (some .int) = .ok (.compare .lessOrEqual (.ofInt 7)) ∧
      ofToken "~007" (some .int) = .ok (.pattern .exact "7") ∧
      ofToken ">=x" (some .int) = .error ⟨"", "int", "x"⟩) ∧
    ¬∃ predicate, ofToken "<=1" none = .ok predicate ∧
      Operator.less.Says (.string "=1") predicate := by
  obtain ⟨hreads, hwritten⟩ := ofToken_reads_written
  have htyped : ∀ (operator : Operator) (text : String), operator.Fits text.toList →
      ∀ type : ScalarType,
        (∀ failure, ofToken (operator.mark ++ text) (some type) = .error failure ↔
          type.cast? text = none ∧ failure = ⟨"", type.name, text⟩) ∧
        ∀ predicate, ofToken (operator.mark ++ text) (some type) = .ok predicate ↔
          ∃ value, type.cast? text = some value ∧ operator.Says value predicate := by
    intro operator text hfits
    obtain ⟨operator', operand, htoken, hfits', -, htyped⟩ := hreads (operator.mark ++ text)
    obtain ⟨rfl, rfl⟩ := Operator.eq_of_mark_append hfits' hfits htoken
    exact htyped
  have hseven : ScalarType.int.cast? "007" = some (.ofInt 7) := by
    have hread : Text.integer? "007".toList = some 7 := by decide +kernel
    rw [ScalarType.cast?, hread, Option.bind_some, if_pos (by decide)]
  have hmark : "007".toList.head? ≠ some '=' := by decide
  have hnoText : ∀ text, Value.ofInt 7 ≠ .string text := by
    intro text h
    cases h
  refine ⟨⟨?_, ?_, ?_, ?_, ?_, ?_, ?_⟩, ⟨?_, ?_, ?_⟩, ?_⟩
  · obtain ⟨_, hread, ⟨⟩⟩ := (hwritten .lessOrEqual "007").mpr trivial
    exact hread
  · obtain ⟨_, hread, ⟨⟩⟩ := (hwritten .less "007").mpr hmark
    exact hread
  · obtain ⟨_, hread, ⟨⟩⟩ := (hwritten .greaterOrEqual "007").mpr trivial
    exact hread
  · obtain ⟨_, hread, ⟨⟩⟩ := (hwritten .greater "007").mpr hmark
    exact hread
  · obtain ⟨_, hread, hsays⟩ := (hwritten .exact "007").mpr trivial
    cases hsays with
    | exact htext => rwa [Value.hasText_iff.mp htext] at hread
  · obtain ⟨_, hread, hsays⟩ := (hwritten .substring "007").mpr trivial
    cases hsays with
    | substring htext => rwa [Value.hasText_iff.mp htext] at hread
  · obtain ⟨_, hread, ⟨⟩⟩ := (hwritten .equal "007").mpr (by simp [Operator.Fits])
    exact hread
  · exact ((htyped .lessOrEqual "007" trivial .int).2 _).mpr ⟨_, hseven, .lessOrEqual _⟩
  · exact ((htyped .exact "007" trivial .int).2 _).mpr ⟨_, hseven, .exact (.json hnoText)⟩
  · exact ((htyped .greaterOrEqual "x" trivial .int).1 _).mpr ⟨by decide +kernel, rfl⟩
  · intro hread
    exact (hwritten .less "=1").mp hread rfl

end Predicate

end JoinPlan
