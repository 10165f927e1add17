import DefTally.Log.Setting
import DefTally.Proofs.Text.Cut
import Mathlib.Data.List.Induction
import Mathlib.Data.List.TakeWhile
import Mathlib.Data.String.Basic
import Mathlib.Tactic.IntervalCases

/-!
# What a filter shows

A filter shows an event if the directive that decides about its target admits its level
(`shows_iff_passes`). `Written` says how a plain directive is written, and these are the texts that are
read as directives (`ofText?_eq_some_iff`). So a setting of plain directives with commas between them
shows what passes them, and nothing is said of it (`ofSetting_withCommas`).
-/

namespace DefTally.Log

open DefTally.Text

/-! ## The directive that decides -/

/-- A directive decides about a target: its own target is the beginning of it, and of the directives
for which this is so, those before have no longer target and those after have a shorter one. -/
def Decides (directives : List Directive) (target : List Char) (d : Directive) : Prop :=
  d.target <+: target ∧ ∃ before after, directives = before ++ d :: after ∧
    (∀ o ∈ before, o.target <+: target → o.target.length ≤ d.target.length) ∧
    ∀ o ∈ after, o.target <+: target → o.target.length < d.target.length

/-- An event passes directives: the one that decides about its target admits its level. -/
def Passes (directives : List Directive) (e : Event) : Prop :=
  ∃ d highest, Decides directives e.target.toList d ∧ d.threshold = .upTo highest ∧
    e.level.rank ≤ highest.rank

section Decides

variable {directives : List Directive} {target : List Char} {d d' : Directive}

theorem Decides.length_le (decides : Decides directives target d) (inside : d' ∈ directives)
    (applies : d'.target <+: target) : d'.target.length ≤ d.target.length := by
  obtain ⟨-, before, after, rfl, earlier, later⟩ := decides
  rcases List.mem_append.1 inside with inside | inside
  · exact earlier d' inside applies
  rcases List.mem_cons.1 inside with rfl | inside
  · exact Nat.le_refl _
  · exact Nat.le_of_lt (later d' inside applies)

/-- One directive decides. -/
theorem Decides.unique (decides : Decides directives target d) (decides' : Decides directives target d') :
    d = d' := by
  obtain ⟨applies, before, after, rfl, earlier, later⟩ := decides
  obtain ⟨applies', before', after', same, earlier', later'⟩ := decides'
  rcases List.append_eq_append_iff.1 same with ⟨between, rfl, tail⟩ | ⟨between, rfl, tail⟩
  · cases between with
    | nil => exact (List.cons.inj tail).1
    | cons first more =>
      obtain ⟨rfl, rfl⟩ := List.cons.inj tail
      exact absurd (later d' (by simp) applies') (Nat.not_lt.2 (earlier' d (by simp) applies))
  · cases between with
    | nil => exact (List.cons.inj tail).1.symm
    | cons first more =>
      obtain ⟨rfl, rfl⟩ := List.cons.inj tail
      exact absurd (later' d (by simp) applies) (Nat.not_lt.2 (earlier d' (by simp) applies'))

theorem applies_iff : d.applies target = true ↔ d.target <+: target := List.isPrefixOf_iff_prefix

theorem deciding?_concat (directives : List Directive) (d : Directive) (target : List Char) :
    (Filter.mk (directives ++ [d])).deciding? target =
      if d.applies target then some (match (Filter.mk directives).deciding? target with
        | none => d
        | some b => Filter.stronger b d)
      else (Filter.mk directives).deciding? target := by
  simp only [Filter.deciding?, List.filter_append, List.foldl_append, List.filter_cons]
  cases d.applies target <;> rfl

/-- The last directive decides if it applies and no earlier one has a longer target. -/
theorem decides_concat (applies : d.target <+: target)
    (longest : ∀ o ∈ directives, o.target <+: target → o.target.length ≤ d.target.length) :
    Decides (directives ++ [d]) target d :=
  ⟨applies, directives, [], rfl, longest, fun _ no => absurd no List.not_mem_nil⟩

/-- The directive that decides goes on to do so unless one with a target as long is added. -/
theorem Decides.concat (decides : Decides directives target d)
    (shorter : d'.target <+: target → d'.target.length < d.target.length) :
    Decides (directives ++ [d']) target d := by
  obtain ⟨applies, earlier, later, rfl, notLonger, less⟩ := decides
  refine ⟨applies, earlier, later ++ [d'], by simp, notLonger, fun o inside applies => ?_⟩
  rcases List.mem_append.1 inside with inside | inside
  · exact less o inside applies
  · cases List.mem_singleton.1 inside
    exact shorter applies

/-- A filter picks the directive that decides, and none only if none applies. -/
theorem deciding?_spec (directives : List Directive) (target : List Char) :
    match (Filter.mk directives).deciding? target with
    | some d => Decides directives target d
    | none => ∀ d ∈ directives, ¬ d.target <+: target := by
  induction directives using List.reverseRecOn with
  | nil => exact fun _ no => absurd no List.not_mem_nil
  | append_singleton before d ih =>
    rw [deciding?_concat]
    by_cases applies : d.applies target = true
    · have prefixed := applies_iff.1 applies
      rw [if_pos applies]
      cases best : (Filter.mk before).deciding? target with
      | none =>
        rw [best] at ih
        exact decides_concat prefixed fun o inside no => absurd no (ih o inside)
      | some b =>
        rw [best] at ih
        dsimp only [Filter.stronger]
        split
        · next notShorter =>
          exact decides_concat prefixed fun o inside applies =>
            Nat.le_trans (ih.length_le inside applies) notShorter
        · next shorter => exact ih.concat fun _ => Nat.not_le.1 shorter
    · have apart : ¬ d.target <+: target := fun no => applies (applies_iff.2 no)
      rw [if_neg applies]
      cases best : (Filter.mk before).deciding? target with
      | none =>
        rw [best] at ih
        exact List.forall_mem_append.2 ⟨ih, List.forall_mem_singleton.2 apart⟩
      | some b =>
        rw [best] at ih
        exact ih.concat fun applies => absurd applies apart

end Decides

/-- A filter shows the events that pass its directives. -/
theorem shows_iff_passes (f : Filter) (e : Event) : f.shows e = true ↔ Passes f.directives e := by
  have spec := deciding?_spec f.directives e.target.toList
  rw [Filter.shows]
  cases best : f.deciding? e.target.toList with
  | none =>
    rw [show (Filter.mk f.directives).deciding? e.target.toList = none from best] at spec
    refine iff_of_false (by simp) ?_
    rintro ⟨d, -, ⟨applies, before, after, split, -⟩, -⟩
    exact spec d (by simp [split]) applies
  | some d =>
    rw [show (Filter.mk f.directives).deciding? e.target.toList = some d from best] at spec
    dsimp only
    constructor
    · intro shown
      cases threshold : d.threshold with
      | off => simp [threshold, Threshold.shows] at shown
      | upTo highest =>
        exact ⟨d, highest, spec, threshold, by simpa [threshold, Threshold.shows] using shown⟩
    · rintro ⟨d', highest, decides, threshold, admits⟩
      rw [spec.unique decides, threshold]
      simpa [Threshold.shows] using admits

/-! ## Levels by their names -/

/-- The thresholds with their words, each at its number. -/
def thresholds : List (String × Threshold) :=
  [("off", .off), ("error", .upTo .error), ("warn", .upTo .warn), ("info", .upTo .info),
   ("debug", .upTo .debug), ("trace", .upTo .trace)]

/-- A text names a threshold: it is its word, in letters of any case, or its number, with zeros before
it or without. -/
inductive Named : List Char → Threshold → Prop where
  | word {text : List Char} {word : String} {threshold : Threshold}
      (listed : (word, threshold) ∈ thresholds) (same : text.map Char.toLower = word.toList) :
      Named text threshold
  | number {number : Nat} {word : String} {threshold : Threshold}
      (listed : thresholds[number]? = some (word, threshold)) (zeros : Nat) :
      Named (List.replicate zeros '0' ++ [Nat.digitChar number]) threshold

section Named

variable {text : List Char} {threshold : Threshold} {number : Nat}

theorem ofNumber?_eq (number : Nat) :
    Threshold.ofNumber? number = thresholds[number]?.map Prod.snd := by
  match number with
  | 0 | 1 | 2 | 3 | 4 | 5 => rfl
  | _ + 6 => rfl

theorem lt_of_thresholds {entry : String × Threshold} (listed : thresholds[number]? = some entry) :
    number < 6 := (List.getElem?_eq_some_iff.1 listed).1

theorem toNat_of_isDigit {c : Char} (digit : c.isDigit = true) : 48 ≤ c.toNat ∧ c.toNat ≤ 57 := by
  obtain ⟨low, high⟩ := Bool.and_eq_true_iff.1 digit
  exact ⟨of_decide_eq_true low, of_decide_eq_true high⟩

/-- A digit is the character of its value. -/
theorem eq_digitChar {c : Char} (digit : c.isDigit = true) :
    c = Nat.digitChar (c.toNat - '0'.toNat) := by
  obtain ⟨low, high⟩ := toNat_of_isDigit digit
  have back : c = Char.ofNat c.toNat := (Char.ofNat_toNat c).symm
  generalize c.toNat = n at low high back
  subst back
  interval_cases n <;> rfl

/-- Digits that come to a number below ten are zeros, and then its own digit. -/
theorem eq_replicate_append_of_ofDigitChars (filled : text ≠ [])
    (digits : ∀ c ∈ text, c.isDigit = true) (value : Nat.ofDigitChars 10 text 0 < 10) :
    ∃ zeros, text = List.replicate zeros '0' ++ [Nat.digitChar (Nat.ofDigitChars 10 text 0)] := by
  induction text with
  | nil => exact absurd rfl filled
  | cons c rest ih =>
    obtain ⟨digit, later⟩ := List.forall_mem_cons.1 digits
    have own := eq_digitChar digit
    rw [Nat.ofDigitChars_cons, Nat.mul_zero, Nat.zero_add] at value ⊢
    cases rest with
    | nil => exact ⟨0, congrArg (fun c => [c]) own⟩
    | cons next more =>
      -- more digits follow, so this one counts ten times or more
      rw [Nat.ofDigitChars_eq_ofDigitChars_zero, List.length_cons, Nat.pow_succ] at value ⊢
      have ten : 10 ≤ 10 ^ more.length * 10 := Nat.le_mul_of_pos_left 10 (Nat.pow_pos (by decide))
      have zero : c.toNat - '0'.toNat = 0 := by
        by_contra positive
        have own := Nat.le_mul_of_pos_right (10 ^ more.length * 10) (Nat.pos_of_ne_zero positive)
        omega
      rw [zero] at own value ⊢
      simp only [Nat.mul_zero, Nat.zero_add] at value ⊢
      obtain ⟨zeros, same⟩ := ih (List.cons_ne_nil _ _) later value
      exact ⟨zeros + 1, by rw [own, List.replicate_succ, List.cons_append, ← same]; rfl⟩

theorem named_of_ofName? (named : Threshold.ofName? text = some threshold) : Named text threshold := by
  unfold Threshold.ofName? at named
  split at named
  case h_7 =>
    split at named
    · next digits =>
      rw [Bool.and_eq_true, Bool.not_eq_true', List.isEmpty_eq_false_iff] at digits
      rw [ofNumber?_eq] at named
      obtain ⟨⟨word, _⟩, listed, rfl⟩ := Option.map_eq_some_iff.1 named
      obtain ⟨zeros, same⟩ := eq_replicate_append_of_ofDigitChars digits.1
        (List.all_eq_true.1 digits.2) (Nat.lt_trans (lt_of_thresholds listed) (by decide))
      rw [same]
      exact .number listed zeros
    · cases named
  all_goals
    next same =>
      cases named
      exact .word (by decide) (String.ofList_eq.1 same)

/-- The digits of a number below six, with zeros before it or without. -/
theorem digits_of_number (small : number < 6) (zeros : Nat) :
    ∀ c ∈ List.replicate zeros '0' ++ [Nat.digitChar number], c.isDigit = true := by
  intro c inside
  rcases List.mem_append.1 inside with inside | inside
  · rw [List.eq_of_mem_replicate inside]
    rfl
  · rw [List.mem_singleton.1 inside]
    interval_cases number <;> rfl

theorem toLower_of_isDigit {c : Char} (digit : c.isDigit = true) : c.toLower = c := by
  refine dif_neg fun isLetter => ?_
  have high := (toNat_of_isDigit digit).2
  have low : 65 ≤ c.toNat := isLetter.1
  omega

theorem Named.ofName? (named : Named text threshold) : Threshold.ofName? text = some threshold := by
  cases named with
  | word listed same =>
    rw [Threshold.ofName?, same, String.ofList_toList]
    simp only [thresholds, List.mem_cons, Prod.mk.injEq, List.not_mem_nil, or_false] at listed
    rcases listed with ⟨rfl, rfl⟩ | ⟨rfl, rfl⟩ | ⟨rfl, rfl⟩ | ⟨rfl, rfl⟩ | ⟨rfl, rfl⟩ | ⟨rfl, rfl⟩ <;>
    rfl
  | @number number word _ listed zeros =>
    have small := lt_of_thresholds listed
    have digits := digits_of_number small zeros
    have value :
        Nat.ofDigitChars 10 (List.replicate zeros '0' ++ [Nat.digitChar number]) 0 = number := by
      rw [Nat.ofDigitChars_append, Nat.ofDigitChars_replicate_zero,
        Nat.ofDigitChars_cons_digitChar_of_lt_ten (by omega), Nat.ofDigitChars_nil]
      omega
    have filled : List.replicate zeros '0' ++ [Nat.digitChar number] ≠ [] := by simp
    generalize List.replicate zeros '0' ++ [Nat.digitChar number] = text at digits value filled
    have lower : text.map Char.toLower = text :=
      (List.map_congr_left fun c inside => toLower_of_isDigit (digits c inside)).trans (List.map_id _)
    have all := List.all_eq_true.2 digits
    unfold Threshold.ofName?
    rw [lower]
    split
    case h_7 =>
      rw [value, if_pos (by simpa using ⟨filled, digits⟩), ofNumber?_eq, listed]
      rfl
    all_goals
      next same =>
        rw [String.ofList_eq.1 same] at all
        exact absurd all (by decide)

theorem ofName?_eq_some_iff : Threshold.ofName? text = some threshold ↔ Named text threshold :=
  ⟨named_of_ofName?, Named.ofName?⟩

/-- The name of a level is made of letters and digits. -/
theorem Named.alphanum (named : Named text threshold) :
    text ≠ [] ∧ ∀ c ∈ text, c.isAlphanum = true := by
  cases named with
  | word listed same =>
    have words : ∀ entry ∈ thresholds, entry.1.toList ≠ [] ∧ entry.1.toList.all Char.isAlphanum := by
      decide
    obtain ⟨filled, letters⟩ := words _ listed
    refine ⟨fun empty => filled (by rw [← same, empty]; rfl), fun c inside => ?_⟩
    by_cases upper : c.isUpper = true
    · exact Bool.or_eq_true_iff.2 (.inl (Bool.or_eq_true_iff.2 (.inl upper)))
    · have same' : c.toLower = c := dif_neg fun isUpper => upper (decide_eq_true isUpper)
      rw [← same']
      exact List.all_eq_true.1 letters _ (same ▸ List.mem_map_of_mem inside)
  | number listed zeros =>
    refine ⟨by simp, fun c inside => ?_⟩
    exact Bool.or_eq_true_iff.2 (.inr (digits_of_number (lt_of_thresholds listed) zeros c inside))

theorem isWhiteSpace_of_isAlphanum {c : Char} (alphanum : c.isAlphanum = true) :
    isWhiteSpace c = false := by
  have code : 48 ≤ c.toNat ∧ c.toNat ≤ 57 ∨ 65 ≤ c.toNat ∧ c.toNat ≤ 90 ∨
      97 ≤ c.toNat ∧ c.toNat ≤ 122 := by
    rcases Bool.or_eq_true_iff.1 alphanum with alpha | digit
    · rcases Bool.or_eq_true_iff.1 alpha with upper | lower
      · exact .inr (.inl (of_decide_eq_true upper))
      · obtain ⟨low, high⟩ := Bool.and_eq_true_iff.1 lower
        exact .inr (.inr ⟨of_decide_eq_true low, of_decide_eq_true high⟩)
    · exact .inl (toNat_of_isDigit digit)
  simp only [isWhiteSpace, Bool.or_eq_false_iff, Bool.and_eq_false_iff, decide_eq_false_iff_not,
    beq_eq_false_iff_ne]
  omega

end Named

/-! ## Plain directives -/

/-- A text that can be written for a target: no level is named by it, and it is made of the characters
that may stand in targets, with one first that they may begin with. -/
structure ProperTarget (target : List Char) : Prop where
  begins : ∃ c rest, target = c :: rest ∧ Directive.beginsTarget c = true
  chars : ∀ c ∈ target, Directive.isTargetChar c = true
  noLevel : ∀ threshold, ¬ Named target threshold

/-- How a directive is written: a level for all targets, a target with a level, or a target of which
everything is shown, which may have the sign for a level after it. -/
inductive Written : List Char → Directive → Prop where
  | level {name : List Char} {threshold : Threshold} (named : Named name threshold) :
      Written name ⟨[], threshold⟩
  | target {target : List Char} (proper : ProperTarget target) :
      Written target ⟨target, .upTo .trace⟩
  | targetLevel {target name : List Char} {threshold : Threshold} (proper : ProperTarget target)
      (named : Named name threshold) : Written (target ++ '=' :: name) ⟨target, threshold⟩
  | targetOpen {target : List Char} (proper : ProperTarget target) :
      Written (target ++ ['=']) ⟨target, .upTo .trace⟩

section Written

variable {text target : List Char} {d : Directive}

theorem ofName?_eq_none_iff :
    Threshold.ofName? text = none ↔ ∀ threshold, ¬ Named text threshold := by
  simp only [Option.eq_none_iff_forall_ne_some, ne_eq, ofName?_eq_some_iff]

theorem isTarget_iff : Directive.isTarget target = true ↔ ProperTarget target := by
  rw [Directive.isTarget, Bool.and_eq_true, Bool.and_eq_true, List.all_eq_true,
    Option.isNone_iff_eq_none, ofName?_eq_none_iff]
  constructor
  · rintro ⟨⟨begins, chars⟩, noLevel⟩
    cases target with
    | nil => cases begins
    | cons c rest => exact ⟨⟨c, rest, rfl, begins⟩, chars, noLevel⟩
  · rintro ⟨⟨c, rest, rfl, begins⟩, chars, noLevel⟩
    exact ⟨⟨begins, chars⟩, noLevel⟩

theorem ProperTarget.not_mem (proper : ProperTarget target) {c : Char}
    (other : Directive.isTargetChar c = false) : c ∉ target := by
  intro inside
  rw [proper.chars c inside] at other
  cases other

theorem not_mem_of_named {name : List Char} {threshold : Threshold} (named : Named name threshold)
    {c : Char} (other : c.isAlphanum = false) : c ∉ name := by
  intro inside
  rw [named.alphanum.2 c inside] at other
  cases other

/-- A text that begins with a target and the sign for a level is read as the target and what follows. -/
theorem ofText?_target (proper : ProperTarget target) (level : List Char) :
    Directive.ofText? (target ++ '=' :: level) = match level with
      | [] => some ⟨target, .upTo .trace⟩
      | level => (Threshold.ofName? level).map (⟨target, ·⟩) := by
  have noLevel : Threshold.ofName? (target ++ '=' :: level) = none :=
    ofName?_eq_none_iff.2 fun threshold named => not_mem_of_named named (c := '=') rfl (by simp)
  have cut : (target ++ '=' :: level).takeWhile (· != '=') = target := by
    rw [List.takeWhile_append_of_pos, List.takeWhile_cons_of_neg (by simp), List.append_nil]
    exact fun c inside => bne_iff_ne.2 fun same => proper.not_mem (by decide) (same ▸ inside)
  have rest : (target ++ '=' :: level).drop (target.length + 1) = level := by simp
  rw [Directive.ofText?, noLevel]
  cases level with
  | nil => simp only [cut, rest, if_pos (isTarget_iff.2 proper)]
  | cons c later => simp only [cut, rest, if_pos (isTarget_iff.2 proper)]

/-- A written directive is read as what it says. -/
theorem Written.ofText? (written : Written text d) : Directive.ofText? text = some d := by
  cases written with
  | level named => rw [Directive.ofText?, named.ofName?]
  | target proper =>
    have whole : text.takeWhile (· != '=') = text := by
      refine List.takeWhile_eq_self_iff.2 fun c inside => bne_iff_ne.2 fun same => ?_
      exact proper.not_mem (by decide) (same ▸ inside)
    rw [Directive.ofText?, ofName?_eq_none_iff.2 proper.noLevel]
    simp only [whole, if_pos (isTarget_iff.2 proper), List.drop_of_length_le (Nat.le_succ _)]
  | @targetLevel target name threshold proper named =>
    rw [ofText?_target proper]
    cases name with
    | nil => exact absurd rfl named.alphanum.1
    | cons c rest => exact congrArg (Option.map (Directive.mk target)) named.ofName?
  | targetOpen proper => exact ofText?_target proper []

/-- A text has the sign for a level after its beginning without one, or it has none. -/
theorem takeWhile_cases (text : List Char) : text.takeWhile (· != '=') = text ∨
    ∃ rest, text = text.takeWhile (· != '=') ++ '=' :: rest := by
  induction text with
  | nil => exact .inl rfl
  | cons c rest ih =>
    by_cases sign : c = '='
    · subst sign
      exact .inr ⟨rest, rfl⟩
    · rw [List.takeWhile_cons_of_pos (by simpa using sign)]
      obtain whole | ⟨level, cut⟩ := ih
      · exact .inl (congrArg _ whole)
      · exact .inr ⟨level, congrArg _ cut⟩

/-- What is read as a directive is one that is written so. -/
theorem written_of_ofText? (read : Directive.ofText? text = some d) : Written text d := by
  have unfolded := read
  rw [Directive.ofText?] at unfolded
  split at unfolded
  · next threshold named =>
    cases unfolded
    exact .level (ofName?_eq_some_iff.1 named)
  dsimp only at unfolded
  split at unfolded
  · next isTarget =>
    have proper := isTarget_iff.1 isTarget
    clear isTarget
    obtain whole | ⟨level, cut⟩ := takeWhile_cases text
    · rw [whole] at unfolded proper
      simp only [List.drop_of_length_le (Nat.le_succ _)] at unfolded
      cases unfolded
      exact .target proper
    · clear unfolded
      generalize text.takeWhile (· != '=') = target at proper cut
      subst cut
      rw [ofText?_target proper] at read
      cases level with
      | nil =>
        cases read
        exact .targetOpen proper
      | cons c rest =>
        obtain ⟨threshold, named, rfl⟩ := Option.map_eq_some_iff.1 read
        exact .targetLevel proper (ofName?_eq_some_iff.1 named)
  · cases unfolded

/-- The texts that are read as directives are the plain ones. -/
theorem ofText?_eq_some_iff : Directive.ofText? text = some d ↔ Written text d :=
  ⟨written_of_ofText?, Written.ofText?⟩

/-- A character that a target may begin with is not white space. -/
theorem isWhiteSpace_of_beginsTarget {c : Char} (begins : Directive.beginsTarget c = true) :
    isWhiteSpace c = false := by
  have codes : ∀ n ∈ List.range' 9 5 ++ [0x20, 0x85, 0xa0, 0x1680] ++ List.range' 0x2000 11 ++
      [0x2028, 0x2029, 0x202f, 0x205f, 0x3000], Directive.beginsTarget (Char.ofNat n) = false := by
    decide +kernel
  by_contra white
  have listed := codes c.toNat (by
    simp only [isWhiteSpace, Bool.or_eq_false_iff, Bool.and_eq_false_iff, decide_eq_false_iff_not,
      beq_eq_false_iff_ne] at white
    simp only [List.mem_append, List.mem_range'_1, List.mem_cons, List.not_mem_nil, or_false]
    omega)
  rw [Char.ofNat_toNat, begins] at listed
  cases listed

/-- A written directive has no comma, and has more than white space. -/
theorem Written.plain (written : Written text d) : ',' ∉ text ∧ ∃ c ∈ text, isWhiteSpace c = false := by
  have ofNamed : ∀ {name threshold}, Named name threshold →
      ',' ∉ name ∧ ∃ c ∈ name, isWhiteSpace c = false := by
    intro name threshold named
    obtain ⟨filled, alphanum⟩ := named.alphanum
    obtain ⟨c, inside⟩ := List.exists_mem_of_ne_nil _ filled
    exact ⟨not_mem_of_named named rfl, c, inside, isWhiteSpace_of_isAlphanum (alphanum c inside)⟩
  have ofTarget : ∀ {target}, ProperTarget target →
      ',' ∉ target ∧ ∃ c ∈ target, isWhiteSpace c = false := by
    intro target proper
    obtain ⟨c, rest, same, begins⟩ := proper.begins
    exact ⟨proper.not_mem (by decide), c, same ▸ List.mem_cons_self, isWhiteSpace_of_beginsTarget begins⟩
  -- what follows a target keeps its character that is not white space, and brings no comma
  have after : ∀ {target level}, ProperTarget target → ',' ∉ level →
      ',' ∉ target ++ '=' :: level ∧ ∃ c ∈ target ++ '=' :: level, isWhiteSpace c = false := by
    intro target level proper noComma
    obtain ⟨apart, c, inside, shown⟩ := ofTarget proper
    refine ⟨?_, c, List.mem_append_left _ inside, shown⟩
    rw [List.mem_append, List.mem_cons, not_or, not_or]
    exact ⟨apart, by decide, noComma⟩
  cases written with
  | level named => exact ofNamed named
  | target proper => exact ofTarget proper
  | targetLevel proper named => exact after proper (ofNamed named).1
  | targetOpen proper => exact after proper List.not_mem_nil

end Written

/-! ## Settings -/

/-- What stands between the commas of a setting: its directives, in their order, and empty texts. -/
inductive Parts : List (List Char) → List Directive → Prop where
  | nil : Parts [] []
  | empty {parts : List (List Char)} {directives : List Directive} (rest : Parts parts directives) :
      Parts ([] :: parts) directives
  | directive {text : List Char} {d : Directive} {parts : List (List Char)}
      {directives : List Directive} (written : Written text d) (rest : Parts parts directives) :
      Parts (text :: parts) (d :: directives)

section Parts

variable {parts : List (List Char)} {directives : List Directive}

theorem Parts.noComma (reads : Parts parts directives) : ∀ part ∈ parts, ',' ∉ part := by
  induction reads with
  | nil => exact fun _ no => absurd no List.not_mem_nil
  | empty _ ih => exact List.forall_mem_cons.2 ⟨List.not_mem_nil, ih⟩
  | directive written _ ih => exact List.forall_mem_cons.2 ⟨written.plain.1, ih⟩

/-- The parts of a setting that are not empty are read as its directives. -/
theorem Parts.mapM_eq (reads : Parts parts directives) :
    (parts.filter (· ≠ [])).mapM Directive.ofText? = some directives := by
  induction reads with
  | nil => rfl
  | empty _ ih => simpa using ih
  | directive written _ ih =>
    have filled := List.ne_nil_of_mem written.plain.2.choose_spec.1
    rw [List.filter_cons_of_pos (by simpa using filled), List.mapM_cons, written.ofText?, ih]
    rfl

/-- A setting without anything but white space has no directives. -/
theorem Parts.blank (reads : Parts parts directives)
    (blank : ∀ part ∈ parts, ∀ c ∈ part, isWhiteSpace c) : directives = [] := by
  induction reads with
  | nil => rfl
  | empty _ ih => exact ih fun part inside => blank part (List.mem_cons_of_mem _ inside)
  | directive written _ _ =>
    obtain ⟨-, c, inside, notWhite⟩ := written.plain
    rw [blank _ List.mem_cons_self c inside] at notWhite
    cases notWhite

end Parts

/-! ### Texts with commas between them -/

/-- Texts with commas between them. -/
def withCommas (parts : List (List Char)) : List Char := [','].intercalate parts

theorem splitAt_of_not_mem {separator : Char} {part : List Char} (apart : separator ∉ part) :
    splitAt separator part = [part] := by
  induction part with
  | nil => rfl
  | cons c rest ih =>
    obtain ⟨other, later⟩ := not_or.1 (List.mem_cons.not.1 apart)
    rw [splitAt, if_neg (Ne.symm other), ih later]

theorem splitAt_append {separator : Char} {part : List Char} (apart : separator ∉ part)
    (text : List Char) :
    splitAt separator (part ++ separator :: text) = part :: splitAt separator text := by
  induction part with
  | nil => rw [List.nil_append, splitAt, if_pos rfl]
  | cons c rest ih =>
    obtain ⟨other, later⟩ := not_or.1 (List.mem_cons.not.1 apart)
    rw [List.cons_append, splitAt, if_neg (Ne.symm other), ih later]

theorem splitAt_withCommas {parts : List (List Char)} (filled : parts ≠ [])
    (noComma : ∀ part ∈ parts, ',' ∉ part) : splitAt ',' (withCommas parts) = parts := by
  induction parts with
  | nil => exact absurd rfl filled
  | cons part rest ih =>
    obtain ⟨apart, later⟩ := List.forall_mem_cons.1 noComma
    cases rest with
    | nil => rw [withCommas, List.intercalate_singleton, splitAt_of_not_mem apart]
    | cons next more =>
      rw [withCommas, List.intercalate_cons_cons, List.append_assoc, List.singleton_append,
        splitAt_append apart]
      exact congrArg _ (ih (List.cons_ne_nil _ _) later)

theorem mem_withCommas {parts : List (List Char)} {part : List Char} {c : Char} (listed : part ∈ parts)
    (inside : c ∈ part) : c ∈ withCommas parts := by
  induction parts with
  | nil => cases listed
  | cons first rest ih =>
    cases rest with
    | nil => rwa [withCommas, List.intercalate_singleton, ← List.mem_singleton.1 listed]
    | cons next more =>
      rw [withCommas, List.intercalate_cons_cons, List.append_assoc]
      rcases List.mem_cons.1 listed with rfl | later
      · exact List.mem_append_left _ inside
      · exact List.mem_append_right _ (List.mem_append_right _ (ih later))

theorem ofText?_withCommas {parts : List (List Char)} {directives : List Directive}
    (reads : Parts parts directives) : Filter.ofText? (withCommas parts) = some ⟨directives⟩ := by
  rw [Filter.ofText?]
  cases parts with
  | nil =>
    cases reads
    rfl
  | cons part rest =>
    rw [splitAt_withCommas (List.cons_ne_nil _ _) reads.noComma, reads.mapM_eq]
    rfl

/-- Of a setting of plain directives there is nothing to say, and it shows the events that pass
them. -/
theorem ofSetting_withCommas {parts : List (List Char)} {directives : List Directive}
    (reads : Parts parts directives) (reader : SettingReader) :
    ∃ shows, Logging.ofSetting reader (some (Utf8.encode (withCommas parts))) = ⟨"", shows⟩ ∧
      ∀ e, shows e = true ↔ Passes directives e := by
  simp only [Logging.ofSetting, Option.bind_some, Utf8.decode?_encode, ofText?_withCommas reads]
  split
  · next blank =>
    have none : directives = [] := by
      refine reads.blank fun part listed c inside => ?_
      exact List.all_eq_true.1 blank c (mem_withCommas listed inside)
    subst none
    refine ⟨fun _ => false, rfl, fun e => iff_of_false Bool.false_ne_true ?_⟩
    rintro ⟨d, -, ⟨-, before, after, no, -⟩, -⟩
    cases before <;> cases no
  · exact ⟨_, rfl, shows_iff_passes ⟨directives⟩⟩

end DefTally.Log
