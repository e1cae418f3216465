import ValidatorGen.Proofs.Artifact.Blocks
import ValidatorGen.Proofs.Schema.TypeReader
import ValidatorGen.Proofs.Text.Uppercase
import ValidatorGen.Target.Builtin

/-! Identifiers of emitted declarations. The names of definitions are distinct as they stand, but
identifiers are made from their capitalizations, and these need not be distinct. -/
namespace ValidatorGen

open Text

namespace Environment

end Environment

end ValidatorGen
