/-!
# Command numbers

The `c` field of a message names its command by number.
-/

namespace DecentralizedCloud

inductive CommandType where
  | connectionRequest | codeDelivery | choseRandomNumber | verificationResult | closeBlock
  | stateChange | syncNewBlock | blockRequest | blockResponse | fetchFunction | fetchTemplate
  | fetchDocument | deterministicCodeDelivery | canCommit | txNotification | verifyBlock
  | exception | storageurl | exeFunction | syncNodes | stateChangeResponse
deriving DecidableEq, Repr

namespace CommandType

/-- The commands in the order of their numbers, which start at 1. -/
def all : List CommandType :=
  [ .connectionRequest, .codeDelivery, .choseRandomNumber, .verificationResult, .closeBlock,
    .stateChange, .syncNewBlock, .blockRequest, .blockResponse, .fetchFunction, .fetchTemplate,
    .fetchDocument, .deterministicCodeDelivery, .canCommit, .txNotification, .verifyBlock,
    .exception, .storageurl, .exeFunction, .syncNodes, .stateChangeResponse ]

def code (c : CommandType) : Nat := all.idxOf c + 1

/-- `static_cast<CommandType>`, which cuts a number off to a `char`. A number
that names no command has no handler. -/
def ofCode (n : Int) : Option CommandType := all.find? fun c => (c.code : Int) = n % 256

/-- Reading a command's number gives the command back. -/
theorem ofCode_code (c : CommandType) : ofCode c.code = some c := by
  cases c <;> decide

end CommandType

/-- The state changes that a `stateChange` message asks for. -/
inductive Command where
  | addTemplate | addDocument | addFunction | updateTemplate | updateDocument | updateFunction
  | deleteTemplate | deleteDocument | deleteFunction
deriving DecidableEq, Repr

namespace Command

/-- The state changes in the order of their numbers, which start at 1. -/
def all : List Command :=
  [ .addTemplate, .addDocument, .addFunction, .updateTemplate, .updateDocument, .updateFunction,
    .deleteTemplate, .deleteDocument, .deleteFunction ]

def code (c : Command) : Nat := all.idxOf c + 1

/-- `static_cast<Command>`, which cuts a number off to a `char`. -/
def ofCode (n : Int) : Option Command := all.find? fun c => (c.code : Int) = n % 256

/-- Reading a state change's number gives the state change back. -/
theorem ofCode_code (c : Command) : ofCode c.code = some c := by
  cases c <;> decide

end Command

end DecentralizedCloud
