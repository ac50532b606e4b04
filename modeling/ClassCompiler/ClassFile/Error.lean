import ClassCompiler.Jvm.Descriptor

/-!
# Class writing errors

What can stop a class record from becoming a class file: a jump too far, a
body too long, an inconsistent or underflowing operand stack, a jump to a label
that is never placed, a full constant pool, an overlong string, too many
entries in a table, or a member descriptor that cannot be read. Each error that
concerns one method names it as `class.name(descriptor)`.
-/

namespace ClassCompiler

/-- Why a class record cannot be written. -/
inductive EmitError where
  | branchOutOfRange (method : String) (offset : Int)
  | codeTooLarge (method : String) (size : Nat)
  | stackUnderflow (method : String) (index : Nat)
  | stackMismatch (method : String) (index first second : Nat)
  | unboundLabel (method : String) (label : Nat)
  | poolOverflow
  | constantTooLong (length : Nat)
  | tooMany (what : String) (count : Nat)
  | descriptor (e : DescriptorError)
  deriving DecidableEq, Repr

namespace EmitError

def message : EmitError → String
  | .branchOutOfRange m o => m ++ ": branch offset " ++ toString o ++ " out of range"
  | .codeTooLarge m n => m ++ ": code too large (" ++ toString n ++ " bytes)"
  | .stackUnderflow m i => m ++ ": operand stack underflow at instruction " ++ toString i
  | .stackMismatch m i a b =>
    m ++ ": inconsistent stack depth at instruction " ++ toString i ++ " (" ++ toString a ++
      " vs " ++ toString b ++ ")"
  | .unboundLabel m l => m ++ ": jump to unbound label L" ++ toString l
  | .poolOverflow => "constant pool overflow"
  | .constantTooLong n => "constant too long (" ++ toString n ++ " bytes, limit 65535)"
  | .tooMany what n => "too many " ++ what ++ " (" ++ toString n ++ ", limit 65535)"
  | .descriptor e => e.message

/-- The name of the kind of error. -/
def kindName : EmitError → String
  | .branchOutOfRange .. => "BranchOutOfRange"
  | .codeTooLarge .. => "CodeTooLarge"
  | .stackUnderflow .. => "StackUnderflow"
  | .stackMismatch .. => "StackMismatch"
  | .unboundLabel .. => "UnboundLabel"
  | .poolOverflow => "ConstantPoolOverflow"
  | .constantTooLong _ => "ConstantTooLong"
  | .tooMany .. => "TooMany"
  | .descriptor _ => "Descriptor"

end EmitError

end ClassCompiler
