import Javelin.Text.Utf8

/-!
# Kinds of problems

Every diagnostic has an identity with a fixed number, a severity, a category and a message template.
In a template `%s` takes the next argument as it is and `%q` takes it quoted.
-/

namespace Javelin.Problem

/-- How grave a problem is. -/
inductive Severity where
  | error
  | warning
  | info
deriving DecidableEq, Inhabited, Repr

/-- The part of the compiler a problem belongs to. -/
inductive Category where
  | lexical
  | syntactic
  | semantic
  | flow
  | internal
deriving DecidableEq, Inhabited, Repr

namespace Severity

/-- Errors come first. -/
def rank : Severity → Int
  | .error => 0
  | .warning => 1
  | .info => 2

/-- The name of the severity with the given rank. -/
def nameOfRank (n : Int) : String :=
  if n == 0 then "ERROR" else if n == 1 then "WARNING" else if n == 2 then "INFO" else "Unknown"

def name (s : Severity) : String := nameOfRank s.rank

/-- The name in messages. -/
def label : Severity → String
  | .error => "error"
  | .warning => "warning"
  | .info => "info"

end Severity

def Category.name : Category → String
  | .lexical => "lexical"
  | .syntactic => "syntax"
  | .semantic => "semantic"
  | .flow => "flow"
  | .internal => "internal"

/-- The identity of a problem. `other` stands for numbers that name none. -/
inductive Id where
  | unknown
  | invalidCharacter
  | unterminatedString
  | unterminatedChar
  | unterminatedComment
  | unterminatedTextBlock
  | invalidEscape
  | invalidUnderscore
  | invalidHexLiteral
  | invalidBinaryLiteral
  | invalidOctalLiteral
  | invalidFloatLiteral
  | emptyCharLiteral
  | invalidCharLiteral
  | textBlockNotSupported
  | underscoreAsIdentifier
  | syntaxErrorOnToken
  | syntaxErrorDeleteToken
  | syntaxErrorInsertToComplete
  | syntaxErrorMisplacedConstruct
  | undefinedType
  | undefinedName
  | undefinedMethod
  | undefinedConstructor
  | undefinedField
  | ambiguousMethod
  | incompatibleTypes
  | incorrectArityForParameterizedType
  | nonGenericType
  | typeArgumentMismatch
  | duplicateLocal
  | duplicateMethod
  | duplicateType
  | duplicateField
  | nonStaticFromStatic
  | notVisible
  | abstractInstantiation
  | cyclicInheritance
  | extendsFinal
  | superclassMustBeClass
  | superinterfaceMustBeInterface
  | invalidOperator
  | missingReturnType
  | voidValue
  | integerOutOfRange
  | deprecatedUse
  | voidMethodReturnsValue
  | shouldReturnValue
  | notAnArray
  | invalidCast
  | incompatibleInstanceof
  | thisInStaticContext
  | invalidIterable
  | importNotFound
  | methodBodyRequired
  | abstractMethodWithBody
  | unimplementedAbstractMethod
  | notAFunctionalInterface
  | invalidClassFile
  | invalidBreak
  | invalidContinue
  | undefinedLabel
  | uninitializedLocal
  | finalReassignment
  | finalFieldAssignment
  | uninitializedBlankFinal
  | unreachableCode
  | missingReturn
  | unhandledException
  | unreachableCatch
  | invalidYield
  | codegenUnsupported
  | internalError
  | expressionTooComplex
  | other (number : Int)
deriving DecidableEq, Inhabited, Hashable, Repr

namespace Id

/-- The identities in the order of their numbers, from zero on. -/
def all : Array Id :=
  #[.unknown, .invalidCharacter, .unterminatedString, .unterminatedChar, .unterminatedComment,
    .unterminatedTextBlock, .invalidEscape, .invalidUnderscore, .invalidHexLiteral,
    .invalidBinaryLiteral, .invalidOctalLiteral, .invalidFloatLiteral, .emptyCharLiteral,
    .invalidCharLiteral, .textBlockNotSupported, .underscoreAsIdentifier, .syntaxErrorOnToken,
    .syntaxErrorDeleteToken, .syntaxErrorInsertToComplete, .syntaxErrorMisplacedConstruct,
    .undefinedType, .undefinedName, .undefinedMethod, .undefinedConstructor, .undefinedField,
    .ambiguousMethod, .incompatibleTypes, .incorrectArityForParameterizedType, .nonGenericType,
    .typeArgumentMismatch, .duplicateLocal, .duplicateMethod, .duplicateType, .duplicateField,
    .nonStaticFromStatic, .notVisible, .abstractInstantiation, .cyclicInheritance,
    .extendsFinal, .superclassMustBeClass, .superinterfaceMustBeInterface, .invalidOperator,
    .missingReturnType, .voidValue, .integerOutOfRange, .deprecatedUse, .voidMethodReturnsValue,
    .shouldReturnValue, .notAnArray, .invalidCast, .incompatibleInstanceof,
    .thisInStaticContext, .invalidIterable, .importNotFound, .methodBodyRequired,
    .abstractMethodWithBody, .unimplementedAbstractMethod, .notAFunctionalInterface,
    .invalidClassFile, .invalidBreak, .invalidContinue, .undefinedLabel, .uninitializedLocal,
    .finalReassignment, .finalFieldAssignment, .uninitializedBlankFinal, .unreachableCode,
    .missingReturn, .unhandledException, .unreachableCatch, .invalidYield, .codegenUnsupported,
    .internalError, .expressionTooComplex]

/-- The number of an identity. -/
def number : Id → Int
  | other n => n
  | id => id.ctorIdx

/-- The identity with a given number. -/
def ofNumber (n : Int) : Id := if n < 0 then other n else all.getD n.toNat (other n)

/-- What is fixed for every problem of one identity. -/
structure Description where
  template : String
  severity : Severity := .error
  category : Category
deriving Inhabited

def description : Id → Description
  | invalidCharacter =>
    { template := "Invalid character %q in source", category := .lexical }
  | unterminatedString =>
    { template := "String literal is not properly closed by a double-quote", category := .lexical }
  | unterminatedChar =>
    { template := "Character literal is not properly closed", category := .lexical }
  | unterminatedComment =>
    { template := "Unexpected end of comment", category := .lexical }
  | unterminatedTextBlock =>
    { template := "Text block is not properly closed with the delimiter", category := .lexical }
  | invalidEscape =>
    { template := "Invalid escape sequence (valid ones are  \\b  \\t  \\n  \\f  \\r  \\\"  \\'  \\\\ )"
      category := .lexical }
  | invalidUnderscore =>
    { template := "Underscores have to be located within digits", category := .lexical }
  | invalidHexLiteral =>
    { template := "Invalid hex literal number", category := .lexical }
  | invalidBinaryLiteral =>
    { template := "Invalid binary literal number (only '0' and '1' are expected)"
      category := .lexical }
  | invalidOctalLiteral =>
    { template := "Invalid octal literal %s", category := .lexical }
  | invalidFloatLiteral =>
    { template := "Invalid float literal number", category := .lexical }
  | emptyCharLiteral =>
    { template := "Empty character constant", category := .lexical }
  | invalidCharLiteral =>
    { template := "Invalid character constant", category := .lexical }
  | textBlockNotSupported =>
    { template := "Text Blocks are not supported below source level 15", category := .lexical }
  | underscoreAsIdentifier =>
    { template := "'_' should not be used as an identifier, since it is a reserved keyword from source level 9 on"
      category := .lexical }
  | syntaxErrorOnToken =>
    { template := "Syntax error on token %q, %s expected", category := .syntactic }
  | syntaxErrorDeleteToken =>
    { template := "Syntax error on token %q, delete this token", category := .syntactic }
  | syntaxErrorInsertToComplete =>
    { template := "Syntax error, insert %q to complete %s", category := .syntactic }
  | syntaxErrorMisplacedConstruct =>
    { template := "Syntax error on tokens, misplaced construct(s)", category := .syntactic }
  | undefinedType =>
    { template := "%s cannot be resolved to a type", category := .semantic }
  | undefinedName =>
    { template := "%s cannot be resolved", category := .semantic }
  | undefinedMethod =>
    { template := "The method %s(%s) is undefined for the type %s", category := .semantic }
  | undefinedConstructor =>
    { template := "The constructor %s(%s) is undefined", category := .semantic }
  | undefinedField =>
    { template := "%s cannot be resolved or is not a field", category := .semantic }
  | ambiguousMethod =>
    { template := "The method %s(%s) is ambiguous for the type %s", category := .semantic }
  | incompatibleTypes =>
    { template := "Type mismatch: cannot convert from %s to %s", category := .semantic }
  | incorrectArityForParameterizedType =>
    { template := "Incorrect number of arguments for type %s; it cannot be parameterized with arguments <%s>"
      category := .semantic }
  | nonGenericType =>
    { template := "The type %s is not generic; it cannot be parameterized with arguments <%s>"
      category := .semantic }
  | typeArgumentMismatch =>
    { template := "Bound mismatch: The type %s is not a valid substitute for the bounded parameter <%s extends %s> of the type %s"
      category := .semantic }
  | duplicateLocal =>
    { template := "Duplicate local variable %s", category := .semantic }
  | duplicateMethod =>
    { template := "Duplicate method %s in type %s", category := .semantic }
  | duplicateType =>
    { template := "The type %s is already defined", category := .semantic }
  | duplicateField =>
    { template := "Duplicate field %s.%s", category := .semantic }
  | nonStaticFromStatic =>
    { template := "Cannot make a static reference to the non-static %s %s", category := .semantic }
  | notVisible =>
    { template := "The %s %s is not visible", category := .semantic }
  | abstractInstantiation =>
    { template := "Cannot instantiate the type %s", category := .semantic }
  | cyclicInheritance =>
    { template := "Cycle detected: the type %s cannot extend/implement itself or one of its own member types"
      category := .semantic }
  | extendsFinal =>
    { template := "The type %s cannot subclass the final class %s", category := .semantic }
  | superclassMustBeClass =>
    { template := "The type %s cannot be the superclass of %s; a superclass must be a class"
      category := .semantic }
  | superinterfaceMustBeInterface =>
    { template := "The type %s cannot be a superinterface of %s; a superinterface must be an interface"
      category := .semantic }
  | invalidOperator =>
    { template := "The operator %s is undefined for the argument type(s) %s"
      category := .semantic }
  | missingReturnType =>
    { template := "Return type for the method is missing", category := .semantic }
  | voidValue =>
    { template := "void is an invalid type for the variable %s", category := .semantic }
  | integerOutOfRange =>
    { template := "The literal %s of type %s is out of range", category := .semantic }
  | deprecatedUse =>
    { template := "The %s %s is deprecated", severity := .warning, category := .semantic }
  | voidMethodReturnsValue =>
    { template := "Void methods cannot return a value", category := .semantic }
  | shouldReturnValue =>
    { template := "This method must return a result of type %s", category := .semantic }
  | notAnArray =>
    { template := "The type of the expression must be an array type but it resolved to %s"
      category := .semantic }
  | invalidCast =>
    { template := "Cannot cast from %s to %s", category := .semantic }
  | incompatibleInstanceof =>
    { template := "Incompatible conditional operand types %s and %s", category := .semantic }
  | thisInStaticContext =>
    { template := "Cannot use %s in a static context", category := .semantic }
  | invalidIterable =>
    { template := "Can only iterate over an array or an instance of java.lang.Iterable"
      category := .semantic }
  | importNotFound =>
    { template := "The import %s cannot be resolved", category := .semantic }
  | methodBodyRequired =>
    { template := "This method requires a body instead of a semicolon", category := .semantic }
  | abstractMethodWithBody =>
    { template := "Abstract methods do not specify a body", category := .semantic }
  | unimplementedAbstractMethod =>
    { template := "The type %s must implement the inherited abstract method %s"
      category := .semantic }
  | notAFunctionalInterface =>
    { template := "The target type of this expression must be a functional interface"
      category := .semantic }
  | invalidClassFile =>
    { template := "The class file %s is corrupt: %s", category := .internal }
  | invalidBreak =>
    { template := "break cannot be used outside of a loop or a switch", category := .flow }
  | invalidContinue =>
    { template := "continue cannot be used outside of a loop", category := .flow }
  | undefinedLabel =>
    { template := "The label %s is missing", category := .flow }
  | uninitializedLocal =>
    { template := "The local variable %s may not have been initialized", category := .flow }
  | finalReassignment =>
    { template := "The final local variable %s may already have been assigned", category := .flow }
  | finalFieldAssignment =>
    { template := "The final field %s cannot be assigned", category := .flow }
  | uninitializedBlankFinal =>
    { template := "The blank final field %s may not have been initialized", category := .flow }
  | unreachableCode =>
    { template := "Unreachable code", category := .flow }
  | missingReturn =>
    { template := "This method must return a result of type %s", category := .flow }
  | unhandledException =>
    { template := "Unhandled exception type %s", category := .flow }
  | unreachableCatch =>
    { template := "Unreachable catch block for %s. This exception is never thrown from the try statement body"
      category := .flow }
  | invalidYield =>
    { template := "yield outside of switch expression", category := .flow }
  | codegenUnsupported =>
    { template := "Code generation for %s is not supported; a problem method was emitted"
      severity := .warning, category := .internal }
  | internalError =>
    { template := "Internal compiler error: %s", category := .internal }
  | expressionTooComplex =>
    { template := "The expression is nested too deeply to be compiled", category := .internal }
  | _ => { template := "", category := .internal }

end Id

/-! ## Messages -/

/-- Fills the holes of a template from the left; missing arguments are question marks. -/
def fill : List Char → List Text → Text
  | '%' :: kind :: rest, args =>
    let (arg, args) :=
      match args with
      | a :: more => (a, more)
      | [] => ("?", [])
    (if kind == 'q' then arg.quote else arg) ++ fill rest args
  | c :: rest, args => Text.ofChar c ++ fill rest args
  | [], _ => {}

/-- The message of a problem. Without a template it is the arguments themselves. -/
def Id.fillIn (id : Id) (args : List Text) : Text :=
  let template := id.description.template
  if template.isEmpty then Text.concat args else fill template.toList args

end Javelin.Problem
