namespace PushAudit

/-- The changes to one file: its hunks as text. -/
structure Fragment where
  file : String
  text : String
deriving DecidableEq, Repr

end PushAudit
