import Reckoner.Decimal.Layout
import Reckoner.Function.Basic
import Reckoner.Operator

/-!
# Errors

Every way in which a formula can fail, as a cause with the data it is about; the wording stands in
one place, `FormulaError.message`.

Main definitions:

* `GrammarFault` — what is wrong with the shape of a formula;
* `DomainFault` — what is wrong with the numbers that take part;
* `FormulaError` — all causes, with `kind` and `message`.
-/

namespace Reckoner

/-- What a closing parenthesis closes. -/
inductive Construct where
  /-- A parenthesised expression. -/
  | group
  /-- The arguments of a function. -/
  | call (function : Function)
  deriving DecidableEq

/-- The purpose of the closing parenthesis of a construct. -/
def Construct.text : Construct → String
  | group => "to close group"
  | call f => s!"to close call to {f.name}"

/-- What is wrong with the shape of a formula. -/
inductive GrammarFault where
  /-- The formula has more characters than the limit. -/
  | tooLong (length limit : Nat)
  /-- The formula nests deeper than the limit. -/
  | tooDeep (limit : Nat)
  /-- There is no token at all. -/
  | noExpression
  /-- A closing parenthesis follows the complete expression. -/
  | unmatchedClose
  /-- Another token follows the complete expression. -/
  | trailing (spelling : String)
  /-- A pair of parentheses that groups nothing. -/
  | emptyGroup
  /-- A function without its arguments. -/
  | functionUncalled (function : Function)
  /-- A name that is neither a constant nor a function. -/
  | unknownName (name : String)
  /-- A placeholder that no argument was bound to. -/
  | unboundPlaceholder (name : String)
  /-- The formula ends where an operand is expected. -/
  | operandMissing
  /-- Another token stands where an operand is expected. -/
  | operandExpected (spelling : String)
  /-- The formula ends before a construct is closed. -/
  | unclosed (construct : Construct)
  /-- Another token stands where a construct is to be closed. -/
  | closeExpected (construct : Construct) (spelling : String)
  /-- A constant followed by an opening parenthesis. -/
  | constantCalled (name : String)
  /-- A function with a number of arguments that it does not accept. -/
  | argumentCount (function : Function) (count : Nat)
  deriving DecidableEq

/-- An operation whose result is checked. -/
inductive Operation where
  /-- A number in the formula, or an argument bound to a placeholder. -/
  | literal
  /-- An operator with its operands. -/
  | binary (op : Operator) (left right : Binary64)
  /-- A function with its arguments. -/
  | call (function : Function) (args : List Binary64)
  deriving DecidableEq

/-- What is wrong with the numbers that take part. -/
inductive DomainFault where
  /-- A name that is no function is followed by an opening parenthesis. -/
  | unknownFunction (name : String)
  /-- The result of an operation is infinite or NaN. -/
  | notFinite (operation : Operation) (result : Binary64)
  /-- The square root of a negative number. -/
  | sqrtOfNegative (x : Binary64)
  /-- The logarithm of zero or of a negative number. -/
  | logOfNonPositive (x : Binary64)
  deriving DecidableEq

/-- Why a formula has no value. -/
inductive FormulaError where
  /-- The formula is missing or blank. -/
  | empty
  /-- A character that no token starts with, at a byte offset. -/
  | unexpectedChar (character : Char) (offset : Nat)
  /-- No argument for a placeholder, the one with this index among `supplied` arguments. -/
  | missingArgument (name : String) (index supplied : Nat)
  /-- The shape of the formula is wrong. -/
  | grammar (fault : GrammarFault)
  /-- The numbers that take part are wrong. -/
  | domain (fault : DomainFault)
  deriving DecidableEq

/-! ### Kinds -/

/-- The kinds of errors that reports tell apart. -/
inductive ErrorKind where
  /-- The formula is missing or blank. -/
  | empty
  /-- A character is out of place. -/
  | lexical
  /-- An argument is missing. -/
  | argument
  /-- The shape is wrong. -/
  | grammar
  /-- The numbers are wrong. -/
  | domain
  deriving DecidableEq

/-- The name of a kind in reports. -/
def ErrorKind.name : ErrorKind → String
  | empty => "EmptyFormulaError"
  | lexical => "LexError"
  | argument => "ArgumentError"
  | grammar => "SyntaxError"
  | domain => "DomainError"

/-- All kinds. -/
def ErrorKind.all : List ErrorKind :=
  [empty, lexical, argument, grammar, domain]

/-- The kind of an error. -/
def FormulaError.kind : FormulaError → ErrorKind
  | empty => .empty
  | unexpectedChar _ _ => .lexical
  | missingArgument _ _ _ => .argument
  | grammar _ => .grammar
  | domain _ => .domain

/-! ### Messages -/

/-- The wording of a fault in the shape of a formula. -/
def GrammarFault.text : GrammarFault → String
  | tooLong length limit => s!"Formula is {length} characters long, limit is {limit}"
  | tooDeep limit => s!"Formula nests deeper than {limit} levels"
  | noExpression => "Empty expression"
  | unmatchedClose => "Unmatched ')'"
  | trailing spelling => s!"Unexpected '{spelling}' after complete expression"
  | emptyGroup => "Empty parentheses"
  | functionUncalled f => s!"Function '{f.name}' must be called with arguments"
  | unknownName name => s!"Unknown identifier '{name}'"
  | unboundPlaceholder name => s!"Unresolved placeholder '${name}'"
  | operandMissing => "Unexpected end of formula, expected an operand"
  | operandExpected spelling => s!"Unexpected '{spelling}', expected an operand"
  | unclosed construct => s!"Unmatched '(': expected ')' {construct.text}"
  | closeExpected construct spelling => s!"Expected ')' {construct.text}, got '{spelling}'"
  | constantCalled name => s!"'{name}' is a constant, not a function"
  | argumentCount f count =>
    s!"Wrong number of arguments for {f.name}: expected {f.arity.text}, got {count}"

/-- An operation with its operands. -/
def Operation.text : Operation → String
  | literal => "literal value"
  | binary op l r => s!"{op.operationName} of {l.text} and {r.text}"
  | call f args =>
    let list := ", ".intercalate (args.map Binary64.text)
    s!"{f.name}({list})"

/-- The wording of a fault in the numbers that take part. -/
def DomainFault.text : DomainFault → String
  | unknownFunction name => s!"Unknown function '{name}'"
  | notFinite operation result =>
    s!"{operation.text} produced a non-finite result ({result.text})"
  | sqrtOfNegative x => s!"sqrt of negative number {x.text}"
  | logOfNonPositive x => s!"log of non-positive number {x.text}"

/-- The message of an error. -/
def FormulaError.message : FormulaError → String
  | empty => "Formula cannot be empty"
  | unexpectedChar character offset => s!"Unexpected character '{character}' at offset {offset}"
  | missingArgument name index supplied =>
    s!"No argument supplied for placeholder '${name}' (argument #{index}, {supplied} supplied)"
  | grammar fault => s!"Syntax error: {fault.text}"
  | domain fault => s!"Domain error: {fault.text}"

end Reckoner
