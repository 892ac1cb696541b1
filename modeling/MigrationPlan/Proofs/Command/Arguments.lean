import MigrationPlan.Command.Evaluate
import MigrationPlan.Proofs.Accepted
import Mathlib.Data.List.TakeWhile

/-!
# Proofs/Command/Arguments — more arguments on a command line

An argument that names an option is no value of the option before it.  So a command line that begins
with one is read behind another line as it is read by itself (**`Options.read_append`**).  The value
of an option is an argument of its own or stands behind an equals sign (`Gives`); unless it looks
like an option, it makes no difference which: **`Gives.read_of_plain`**, `Gives.read_cases`.

The last value of an option counts.  So an option behind a command line replaces its own part of the
request and nothing else: **`Evaluate.ofArguments_append`**, `Evaluate.ofArguments_bits`,
`Evaluate.ofArguments_select`.
-/

namespace MigrationPlan.Command

/-! ## Two lines -/

/-- What two lines give, one behind the other; the first one is refused first. -/
def Given.join (first second : Except Fault Given) : Except Fault Given := do
  let given ← first
  let more ← second
  .ok (given ++ more)

theorem Given.map_cons_join {first second : Except Fault Given} {o : String × Option Datum} :
    (Given.join first second).map (o :: ·) = Given.join (first.map (o :: ·)) second := by
  cases first with
  | error fault => rfl
  | ok given =>
    cases second with
    | error fault => rfl
    | ok more => rfl

/-- **A line that begins with an option is read by itself**, whatever stands before it. -/
theorem Options.read_append {options : Options} {option : String}
    (named : ∀ s, options.classify option ≠ .value s) (arguments behind : List String) :
    options.read (arguments ++ option :: behind)
      = Given.join (options.read arguments) (options.read (option :: behind)) := by
  fun_induction options.read arguments with
  | case1 =>
    rw [List.nil_append]
    generalize options.read (option :: behind) = more
    cases more with
    | error fault => rfl
    | ok more => rfl
  | case2 argument rest name hflag ih =>
    simp only [List.cons_append, read, hflag, ih, Given.map_cons_join]
  | case3 argument rest name value hattached ih =>
    simp only [List.cons_append, read, hattached, ih, Given.map_cons_join]
  | case4 argument name hnamed value rest s hvalue ih =>
    simp only [List.cons_append, read, hnamed, hvalue, ih, Given.map_cons_join]
  | case5 argument name hnamed value rest hno =>
    simp only [List.cons_append, read, hnamed]
    rfl
  | case6 argument name hnamed =>
    -- the option at the end of the first line finds no value behind it
    have hrefused : options.read ([argument] ++ option :: behind) = .error .usage := by
      simp only [List.cons_append, List.nil_append, read, hnamed]
    rw [hrefused]
    rfl
  | case7 argument rest hflag hattached hnamed =>
    simp only [List.cons_append, read]
    rfl

/-! ## An option and its value -/

/-- **An option and its value** are two arguments, or one with an equals sign. -/
inductive Gives (option value : String) : List String → Prop
  | apart : Gives option value [option, value]
  | joined : Gives option value [option ++ "=" ++ value]

/-- A name that holds no equals sign ends at the first one behind it. -/
theorem splitValue_append {name value : List Char} (h : (splitValue name).2 = none) :
    splitValue (name ++ '=' :: value) = (name, some value) := by
  have hname : ∀ c ∈ name, decide (c ≠ '=') = true := by
    refine List.dropWhile_eq_nil_iff.mp ?_
    rw [splitValue] at h
    split at h
    · assumption
    · exact nomatch h
  rw [splitValue, List.dropWhile_append_of_pos hname, List.takeWhile_append_of_pos hname]
  simp

namespace Options

variable {options : Options} {name value : String} {spec : OptionSpec}

/-- An argument that begins with no hyphen is a value. -/
theorem classify_of_plain (plain : value.toList.head? ≠ some '-') :
    options.classify value = .value value := by
  simp [classify, plain]

/-- A value is the argument as it stands. -/
theorem eq_of_classify_eq_value {s : String} (h : options.classify value = .value s) :
    s = value := by
  simp only [classify] at h
  split at h
  · exact (Argument.value.inj h).symm
  · split at h
    · exact nomatch h
    · exact nomatch h
    · split at h
      · exact (Argument.value.inj h).symm
      · exact nomatch h

/-- **What stands behind the equals sign is the value of the option.** -/
theorem classify_attached (h : options.classify name = .named spec none) (value : String) :
    options.classify (name ++ "=" ++ value) = .named spec (some value) := by
  -- what the name is classified by: a hyphen, one option that it stands for, and no equals sign
  obtain ⟨hhead, hmatching, hvalue⟩ : name.toList.head? = some '-'
      ∧ options.matching (splitValue name.toList).1 = [spec]
      ∧ (splitValue name.toList).2 = none := by
    simp only [classify] at h
    split at h
    · exact nomatch h
    next hhyphen =>
    split at h
    next hmatching =>
      obtain ⟨rfl, hvalue⟩ := Argument.named.inj h
      rw [Bool.or_eq_true, not_or, decide_eq_true_eq, not_not] at hhyphen
      exact ⟨hhyphen.1, hmatching, Option.map_eq_none_iff.mp hvalue⟩
    · exact nomatch h
    · split at h <;> exact nomatch h
  obtain ⟨cs, hcs⟩ := List.head?_eq_some_iff.mp hhead
  have hname : (splitValue name.toList).1 = name.toList := by
    rw [splitValue] at hvalue ⊢
    split at hvalue
    · rfl
    · exact nomatch hvalue
  have htext : (name ++ "=" ++ value).toList = name.toList ++ '=' :: value.toList := by
    simp [String.toList_append]
  rw [hname, hcs] at hmatching
  rw [classify, htext, splitValue_append hvalue]
  simp [hcs, hmatching]

end Options

namespace Gives

variable {options : Options} {option value : String} {line : List String}

/-- The line begins with the option. -/
theorem read_append (gives : Gives option value line)
    (named : options.classify option = .named ⟨option, true⟩ none) (arguments : List String) :
    options.read (arguments ++ line) = Given.join (options.read arguments) (options.read line) := by
  cases gives with
  | apart => exact Options.read_append (by simp [named]) arguments _
  | joined =>
    exact Options.read_append (by simp [Options.classify_attached named]) arguments _

/-- **A value that begins with no hyphen is read either way.** -/
theorem read_of_plain (gives : Gives option value line)
    (named : options.classify option = .named ⟨option, true⟩ none)
    (plain : value.toList.head? ≠ some '-') :
    options.read line = .ok [(option, some (.text value))] := by
  cases gives with
  | apart =>
    simp only [Options.read, named, Options.classify_of_plain plain]
    rfl
  | joined =>
    have hvalue : value ≠ "--" := by
      rintro rfl
      exact plain rfl
    simp only [Options.read, Options.classify_attached named, attached, if_neg hvalue]
    rfl

/-- **Either way, the line is refused, or gives the value as it stands or an empty list.** -/
theorem read_cases (gives : Gives option value line)
    (named : options.classify option = .named ⟨option, true⟩ none) :
    options.read line = .error .usage
      ∨ ∃ d, options.read line = .ok [(option, some d)] ∧ (d = .text value ∨ d = .node []) := by
  cases gives with
  | apart =>
    cases hvalue : options.classify value with
    | value s =>
      obtain rfl := Options.eq_of_classify_eq_value hvalue
      simp only [Options.read, named, hvalue]
      exact .inr ⟨_, rfl, .inl rfl⟩
    | named spec behind =>
      simp only [Options.read, named, hvalue]
      exact .inl trivial
    | unknown =>
      simp only [Options.read, named, hvalue]
      exact .inl trivial
  | joined =>
    simp only [Options.read, Options.classify_attached named]
    refine .inr ⟨_, rfl, ?_⟩
    rw [attached]
    split
    · exact .inr rfl
    · exact .inl rfl

end Gives

/-! ## The last value -/

namespace Given

variable {given : Given} {name other value : String} {d : Datum} {read : String → Option Datum}

/-- Another option has no say in the last value of an option. -/
theorem last?_append_of_ne (h : other ≠ name) :
    last? (given ++ [(other, some d)]) name = given.last? name := by
  simp [last?, h]

/-- **The last value of an option is the one behind all others.** -/
theorem last?_append_self : last? (given ++ [(name, some d)]) name = some d := by
  simp [last?]

/-- Nor has it one if all values are checked. -/
theorem lastChecked?_append_of_ne (h : other ≠ name) :
    lastChecked? (given ++ [(other, some d)]) name read = given.lastChecked? name read := by
  simp only [lastChecked?, List.filterMap_append, List.filterMap_cons, List.filterMap_nil, if_neg h,
    List.append_nil]

/-- If all values are checked, the others still have to be good. -/
theorem lastChecked?_append_self (h : read value = some d) :
    lastChecked? (given ++ [(name, some (.text value))]) name read
      = (given.lastChecked? name read).map fun _ => some d := by
  simp only [lastChecked?, List.filterMap_append, List.filterMap_cons, List.filterMap_nil, if_true,
    List.mapM_append, List.mapM_cons, h]
  generalize List.mapM (m := Except Fault) _ (List.filterMap _ given) = checked
  cases checked with
  | error fault => rfl
  | ok ds => exact congrArg Except.ok List.getLast?_concat

theorem refuseHelp_append (hh : name ≠ "-h") (hhelp : name ≠ "--help") :
    refuseHelp (given ++ [(name, some d)]) = given.refuseHelp := by
  simp only [refuseHelp, List.any_append, List.any_cons, List.any_nil, decide_eq_false hh,
    decide_eq_false hhelp, Bool.or_false]

end Given

/-! ## Requests -/

namespace Evaluate

variable {arguments line : List String} {value : String} {d : Datum}

/-- The request of given options. -/
def Request.ofGiven (given : Given) : Except Fault Request := do
  given.refuseHelp
  let encoding ← given.lastChecked? "--encoding" encodingName?
  .ok
    { problemFile := given.last? "--instance"
      encoding := encoding.getD (.text "binary")
      bits := given.last? "--bits"
      select := (given.last? "--select").getD (.text "") }

/-- A command line is read, and then its request is made up. -/
theorem ofArguments_eq (arguments : List String) :
    Request.ofArguments arguments = options.read arguments >>= Request.ofGiven := rfl

/-- **Options behind a command line change its request** as they change the request of any given
options. -/
theorem ofArguments_behind {change : Request → Request} {more : Given}
    (hread : options.read (arguments ++ line)
      = Given.join (options.read arguments) (options.read line))
    (hline : options.read line = .ok more)
    (hchange : ∀ given, Request.ofGiven (given ++ more) = (Request.ofGiven given).map change) :
    Request.ofArguments (arguments ++ line) = (Request.ofArguments arguments).map change := by
  rw [ofArguments_eq, hread, hline, ofArguments_eq]
  cases options.read arguments with
  | error fault => rfl
  | ok given => exact hchange given

/-- What is refused by itself is refused behind a command line that is accepted. -/
theorem ofArguments_refused {request : Request} {fault : Fault}
    (accepted : Request.ofArguments arguments = .ok request)
    (hread : options.read (arguments ++ line)
      = Given.join (options.read arguments) (options.read line))
    (hline : options.read line = .error fault) :
    Request.ofArguments (arguments ++ line) = .error fault := by
  rw [ofArguments_eq] at accepted
  obtain ⟨given, hgiven, -⟩ := bind_eq_ok.mp accepted
  rw [ofArguments_eq, hread, hgiven, hline]
  rfl

/-- **An encoding behind a command line is the encoding of its request.** -/
theorem ofArguments_append (arguments : List String) (e : Encoding) :
    Request.ofArguments (arguments ++ ["--encoding", e.name])
      = (Request.ofArguments arguments).map ({ · with encoding := .text e.name }) := by
  have hline : options.read ["--encoding", e.name] = .ok [("--encoding", some (.text e.name))] := by
    cases e <;> rfl
  have hname : encodingName? e.name = some (.text e.name) := by
    rw [encodingName?, Encoding.ofName?_name, Option.map_some]
  refine ofArguments_behind (Gives.apart.read_append rfl _) hline fun given => ?_
  rw [Request.ofGiven, Given.refuseHelp_append (by decide) (by decide),
    Given.lastChecked?_append_self hname, Given.last?_append_of_ne (by decide),
    Given.last?_append_of_ne (by decide), Given.last?_append_of_ne (by decide)]
  simp only [Request.ofGiven, map_of_bind, bind_of_map, ok_map, Option.getD_some]

/-- Bits behind a command line are the bits of its request. -/
theorem ofArguments_bits (gives : Gives "--bits" value line)
    (hline : options.read line = .ok [("--bits", some d)]) :
    Request.ofArguments (arguments ++ line)
      = (Request.ofArguments arguments).map ({ · with bits := some d }) := by
  refine ofArguments_behind (gives.read_append rfl _) hline fun given => ?_
  rw [Request.ofGiven, Given.refuseHelp_append (by decide) (by decide),
    Given.lastChecked?_append_of_ne (by decide), Given.last?_append_of_ne (by decide),
    Given.last?_append_self, Given.last?_append_of_ne (by decide)]
  simp only [Request.ofGiven, map_of_bind, ok_map]

/-- A list of indices behind a command line is that of its request. -/
theorem ofArguments_select (gives : Gives "--select" value line)
    (hline : options.read line = .ok [("--select", some d)]) :
    Request.ofArguments (arguments ++ line)
      = (Request.ofArguments arguments).map ({ · with select := d }) := by
  refine ofArguments_behind (gives.read_append rfl _) hline fun given => ?_
  rw [Request.ofGiven, Given.refuseHelp_append (by decide) (by decide),
    Given.lastChecked?_append_of_ne (by decide), Given.last?_append_of_ne (by decide),
    Given.last?_append_of_ne (by decide), Given.last?_append_self]
  simp only [Request.ofGiven, map_of_bind, ok_map, Option.getD_some]

end Evaluate

end MigrationPlan.Command
