import CommandWord.Header
import CommandWord.Registry

/-!
The exhaustive check of a header table. Every header is tested on its own first; then every
pair, not only neighbours in some order. The first offence in table order is reported.
-/

namespace CommandWord

namespace Header

def firstUnusable : List (Command × Header) → Option ConfigurationError
  | [] => none
  | (command, header) :: rest =>
      if header.IsUsable then firstUnusable rest
      else some (.codeSpaceExhausted command.name header.length)

/-- The first pair of headers, in the order of the earlier one and then of the later one, that
one raw value can match together. -/
def firstCollision : List (Command × Header) → Option ConfigurationError
  | [] => none
  | (command, header) :: rest =>
      match rest.find? fun other => header.Collides other.2 with
      | some other => some (.headerCollision command.name other.1.name)
      | none => firstCollision rest

end Header

namespace Registry

def checkHeaders (registry : Registry) (headers : List Header) : Except ConfigurationError Unit :=
  let table := registry.commands.zip headers
  match Header.firstUnusable table <|> Header.firstCollision table with
  | some cause => .error cause
  | none => .ok ()

end Registry

end CommandWord
