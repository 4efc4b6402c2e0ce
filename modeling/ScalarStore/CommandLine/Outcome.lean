import ScalarStore.Fault
import ScalarStore.Report

/-! # Outcomes

What running an order amounts to: an exit code, texts to print, and a file to write. -/

namespace ScalarStore.CommandLine

/-- How an order ended. One that the program itself refuses ends in misuse, bad data or refusal;
a failure is a fault that it does not expect. -/
inductive Status
  | done
  | failed (fault : Fault)
  | misused
  | badData
  | refused

def Status.exitCode : Status → Nat
  | .done => 0
  | .failed _ => 1
  | .misused => 2
  | .badData => 3
  | .refused => 4

/-- A file is written after all else succeeded. -/
structure Outcome where
  status : Status
  output : String
  complaint : String
  written : Option (String × String)

namespace Outcome

def print (output : String) : Outcome := ⟨.done, output, "", none⟩

/-- What was printed as an answer, up to a fault that ended it. -/
def ofPrinted (p : Report.Printed) : Outcome :=
  ⟨(p.fault.map Status.failed).getD .done, p.text, "", none⟩

def complain (status : Status) (message : String) : Outcome :=
  ⟨status, "", Report.complaint message, none⟩

def fail (fault : Fault) : Outcome := ⟨.failed fault, "", "", none⟩

/-- The fault that ended an order unexpectedly. -/
def fault? (o : Outcome) : Option Fault :=
  match o.status with
  | .failed fault => some fault
  | _ => none

end Outcome

/-- Faults that tell of what a user asked for. The others come from values of a wrong kind. -/
def isExpected : Fault → Bool
  | .value _ => false
  | .missingKey _ => false
  | .kind _ => false
  | .noMember .. => false
  | .overflow _ => false
  | .notImplemented => false
  | _ => true

/-- A fault of a filter text. -/
def isFilterFault : Fault → Bool
  | .filter .. => true
  | _ => false

namespace Outcome

/-- The outcome of a fault, with the status of those that are expected. -/
def ofFault (status : Status) (fault : Fault) : Outcome :=
  if isExpected fault then complain status fault.message else fail fault

/-- The outcome of a fault of a request, of which a filter text that is none is misuse. -/
def ofRequestFault (fault : Fault) : Outcome :=
  ofFault (if isFilterFault fault then .misused else .refused) fault

/-- A computation that may end in an outcome of its own. -/
def settle (result : Except Outcome Outcome) : Outcome :=
  match result with
  | .ok outcome => outcome
  | .error outcome => outcome

end Outcome

/-! ## Usage -/

def usageOf (words : String) : String := "Usage: scalarq " ++ words ++ "\n"

def usage : String := usageOf "[OPTIONS] COMMAND [ARGS]..."

def commandUsage (name : String) : String :=
  usageOf (name ++ " [OPTIONS]" ++ if name = "parse" then " FILTER" else "")

namespace Outcome

/-- A usage text as an answer. -/
def help (usage : String) : Outcome := print usage

/-- A usage text as a complaint. -/
def misuse (usage : String) : Outcome := ⟨.misused, "", usage, none⟩

end Outcome

end ScalarStore.CommandLine
