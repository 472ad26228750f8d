import Solgo.Regexp
import Solgo.Abis.TypeName
import Solgo.Abis.Mapping
import Solgo.Abis.Struct
import Solgo.Ir.Root
import Solgo.Ast.Node
import Solgo.Ast.BitXor
import Solgo.Ast.Enum
import Solgo.Ast.Contract
import Solgo.Ast.Fragments
import Solgo.Ast.Build
import Solgo.Validation.Verifier
