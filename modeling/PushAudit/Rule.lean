import PushAudit.Pattern.Matcher
import PushAudit.Violation

namespace PushAudit

structure Rule where
  id : String
  pattern : Pattern
  issue : String
  severity : Severity
deriving DecidableEq, Repr

namespace Rule

open Pattern

def gap : Pattern := star (one .blank)

def quote : Pattern := one (.anyOf ['"', '\''])

def unquoted : Pattern := one (.noneOf ['"', '\''])

def assignedText : List Pattern :=
  [gap, one (.anyOf [':', '=']), gap, quote, plus unquoted, quote]

def hardcodedPassword : Rule where
  id := "hardcoded-password"
  pattern := seqs (words "password" ["passwd", "pwd"] :: assignedText)
  issue := "Hardcoded password detected"
  severity := .high

def hardcodedApiKey : Rule where
  id := "hardcoded-api-key"
  pattern := seqs (word "api" :: opt (one (.anyOf ['_', '-'])) :: word "key" :: assignedText)
  issue := "Hardcoded API key detected"
  severity := .high

def hardcodedSecret : Rule where
  id := "hardcoded-secret"
  pattern := seqs (words "secret" ["token"] :: assignedText)
  issue := "Hardcoded secret/token detected"
  severity := .high

def awsCredentials : Rule where
  id := "aws-credentials"
  pattern := words "aws_access_key_id" ["aws_secret_access_key"]
  issue := "AWS credentials detected"
  severity := .high

def consoleStatement : Rule where
  id := "console-statement"
  pattern := seqs [edge, word "console.", words "log" ["debug", "info", "warn", "error"], gap, word "("]
  issue := "Console statements detected - use proper logging framework"
  severity := .low

def todoMarker : Rule where
  id := "todo-marker"
  pattern := seqs [edge, words "TODO" ["FIXME", "HACK", "XXX"], edge, opt (word ":")]
  issue := "TODO/FIXME comments detected - should be tracked as issues"
  severity := .low

def lintDisabled : Rule where
  id := "lint-disabled"
  pattern := alts (word "eslint-disable") [word "tslint:disable", word "@ts-ignore", word "@ts-nocheck",
    seqs [word "#", gap, word "type:", gap, word "ignore"]]
  issue := "Linting rules disabled - fix the underlying issue instead"
  severity := .medium

def unsafeEval : Rule where
  id := "unsafe-eval"
  pattern := seqs [edge, word "eval", gap, word "("]
  issue := "Unsafe eval() usage detected"
  severity := .high

/-- The rules, in the order in which they report. -/
def catalog : List Rule :=
  [hardcodedPassword, hardcodedApiKey, hardcodedSecret, awsCredentials, consoleStatement, todoMarker,
    lintDisabled, unsafeEval]

def appliesTo (r : Rule) (text : String) : Bool := r.pattern.occursIn text.toList

def violation (r : Rule) (file : String) : Violation := ⟨file, r.issue, r.severity⟩

/-- The rules that apply to a text, each once however often it does. -/
def applying (text : String) : List Rule := catalog.filter (·.appliesTo text)

def violations (file text : String) : List Violation := (applying text).map (·.violation file)

end Rule

end PushAudit
