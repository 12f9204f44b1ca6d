import TronlinkCore.Library.Decimal
import TronlinkCore.Abi.Layout

namespace TronlinkCore.Abi

namespace ParameterType

def scalarRepresentation : ParameterType → Text
  | .uint bits => "uint".toList ++ decimal bits
  | .int bits => "int".toList ++ decimal bits
  | .fixed bits decimals => "fixed".toList ++ decimal bits ++ 'x' :: decimal decimals
  | .ufixed bits decimals => "ufixed".toList ++ decimal bits ++ 'x' :: decimal decimals
  | .address => "address".toList
  | .bool => "bool".toList
  | .bytes length => "bytes".toList ++ decimal length
  | .dynamicBytes => "bytes".toList
  | .function => "function".toList
  | .string => "string".toList
  | _ => []

mutual
def abiRepresentation : ParameterType → Text
  | .array type length =>
    if length = 0 then type.abiRepresentation ++ ['[', ']']
    else type.abiRepresentation ++ '[' :: decimal length ++ [']']
  | .fixedArray type length => type.abiRepresentation ++ '[' :: decimal length ++ [']']
  | .tuple types => '(' :: joined (representations types) ++ [')']
  | type => type.scalarRepresentation

def representations : List ParameterType → List Text
  | [] => []
  | type :: types => type.abiRepresentation :: representations types
end

end ParameterType

def signature (name : Text) (inputs : List ParameterType) : Text :=
  name ++ '(' :: joined (inputs.map ParameterType.abiRepresentation) ++ [')']

end TronlinkCore.Abi
