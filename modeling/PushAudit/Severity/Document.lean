import PushAudit.Severity
import PushAudit.Json.Variant

namespace PushAudit.Severity

def parse (text : String) : Except Json.Error Severity :=
  ((Json.readVariant (all.map name)).parse text).map fun s => (ofName? s).getD low

end PushAudit.Severity
