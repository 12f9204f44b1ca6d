import TronlinkCore.Library.Text
import TronlinkCore.Library.BigEndian
import Mathlib.Data.List.Chain

namespace TronlinkCore.TrezorCrypto

set_option maxRecDepth 10000 in
def englishWords : List Text :=
  [['a','b','a','n','d','o','n'], ['a','b','i','l','i','t','y'], ['a','b','l','e'], ['a','b','o','u','t'],
    ['a','b','o','v','e'], ['a','b','s','e','n','t'], ['a','b','s','o','r','b'], ['a','b','s','t','r','a','c','t'],
    ['a','b','s','u','r','d'], ['a','b','u','s','e'], ['a','c','c','e','s','s'], ['a','c','c','i','d','e','n','t'],
    ['a','c','c','o','u','n','t'], ['a','c','c','u','s','e'], ['a','c','h','i','e','v','e'], ['a','c','i','d'],
    ['a','c','o','u','s','t','i','c'], ['a','c','q','u','i','r','e'], ['a','c','r','o','s','s'], ['a','c','t'],
    ['a','c','t','i','o','n'], ['a','c','t','o','r'], ['a','c','t','r','e','s','s'], ['a','c','t','u','a','l'],
    ['a','d','a','p','t'], ['a','d','d'], ['a','d','d','i','c','t'], ['a','d','d','r','e','s','s'], ['a','d','j','u','s','t'],
    ['a','d','m','i','t'], ['a','d','u','l','t'], ['a','d','v','a','n','c','e'], ['a','d','v','i','c','e'],
    ['a','e','r','o','b','i','c'], ['a','f','f','a','i','r'], ['a','f','f','o','r','d'], ['a','f','r','a','i','d'],
    ['a','g','a','i','n'], ['a','g','e'], ['a','g','e','n','t'], ['a','g','r','e','e'], ['a','h','e','a','d'], ['a','i','m'],
    ['a','i','r'], ['a','i','r','p','o','r','t'], ['a','i','s','l','e'], ['a','l','a','r','m'], ['a','l','b','u','m'],
    ['a','l','c','o','h','o','l'], ['a','l','e','r','t'], ['a','l','i','e','n'], ['a','l','l'], ['a','l','l','e','y'],
    ['a','l','l','o','w'], ['a','l','m','o','s','t'], ['a','l','o','n','e'], ['a','l','p','h','a'],
    ['a','l','r','e','a','d','y'], ['a','l','s','o'], ['a','l','t','e','r'], ['a','l','w','a','y','s'],
    ['a','m','a','t','e','u','r'], ['a','m','a','z','i','n','g'], ['a','m','o','n','g'], ['a','m','o','u','n','t'],
    ['a','m','u','s','e','d'], ['a','n','a','l','y','s','t'], ['a','n','c','h','o','r'], ['a','n','c','i','e','n','t'],
    ['a','n','g','e','r'], ['a','n','g','l','e'], ['a','n','g','r','y'], ['a','n','i','m','a','l'], ['a','n','k','l','e'],
    ['a','n','n','o','u','n','c','e'], ['a','n','n','u','a','l'], ['a','n','o','t','h','e','r'], ['a','n','s','w','e','r'],
    ['a','n','t','e','n','n','a'], ['a','n','t','i','q','u','e'], ['a','n','x','i','e','t','y'], ['a','n','y'],
    ['a','p','a','r','t'], ['a','p','o','l','o','g','y'], ['a','p','p','e','a','r'], ['a','p','p','l','e'],
    ['a','p','p','r','o','v','e'], ['a','p','r','i','l'], ['a','r','c','h'], ['a','r','c','t','i','c'], ['a','r','e','a'],
    ['a','r','e','n','a'], ['a','r','g','u','e'], ['a','r','m'], ['a','r','m','e','d'], ['a','r','m','o','r'],
    ['a','r','m','y'], ['a','r','o','u','n','d'], ['a','r','r','a','n','g','e'], ['a','r','r','e','s','t'],
    ['a','r','r','i','v','e'], ['a','r','r','o','w'], ['a','r','t'], ['a','r','t','e','f','a','c','t'],
    ['a','r','t','i','s','t'], ['a','r','t','w','o','r','k'], ['a','s','k'], ['a','s','p','e','c','t'],
    ['a','s','s','a','u','l','t'], ['a','s','s','e','t'], ['a','s','s','i','s','t'], ['a','s','s','u','m','e'],
    ['a','s','t','h','m','a'], ['a','t','h','l','e','t','e'], ['a','t','o','m'], ['a','t','t','a','c','k'],
    ['a','t','t','e','n','d'], ['a','t','t','i','t','u','d','e'], ['a','t','t','r','a','c','t'], ['a','u','c','t','i','o','n'],
    ['a','u','d','i','t'], ['a','u','g','u','s','t'], ['a','u','n','t'], ['a','u','t','h','o','r'], ['a','u','t','o'],
    ['a','u','t','u','m','n'], ['a','v','e','r','a','g','e'], ['a','v','o','c','a','d','o'], ['a','v','o','i','d'],
    ['a','w','a','k','e'], ['a','w','a','r','e'], ['a','w','a','y'], ['a','w','e','s','o','m','e'], ['a','w','f','u','l'],
    ['a','w','k','w','a','r','d'], ['a','x','i','s'], ['b','a','b','y'], ['b','a','c','h','e','l','o','r'],
    ['b','a','c','o','n'], ['b','a','d','g','e'], ['b','a','g'], ['b','a','l','a','n','c','e'], ['b','a','l','c','o','n','y'],
    ['b','a','l','l'], ['b','a','m','b','o','o'], ['b','a','n','a','n','a'], ['b','a','n','n','e','r'], ['b','a','r'],
    ['b','a','r','e','l','y'], ['b','a','r','g','a','i','n'], ['b','a','r','r','e','l'], ['b','a','s','e'],
    ['b','a','s','i','c'], ['b','a','s','k','e','t'], ['b','a','t','t','l','e'], ['b','e','a','c','h'], ['b','e','a','n'],
    ['b','e','a','u','t','y'], ['b','e','c','a','u','s','e'], ['b','e','c','o','m','e'], ['b','e','e','f'],
    ['b','e','f','o','r','e'], ['b','e','g','i','n'], ['b','e','h','a','v','e'], ['b','e','h','i','n','d'],
    ['b','e','l','i','e','v','e'], ['b','e','l','o','w'], ['b','e','l','t'], ['b','e','n','c','h'],
    ['b','e','n','e','f','i','t'], ['b','e','s','t'], ['b','e','t','r','a','y'], ['b','e','t','t','e','r'],
    ['b','e','t','w','e','e','n'], ['b','e','y','o','n','d'], ['b','i','c','y','c','l','e'], ['b','i','d'], ['b','i','k','e'],
    ['b','i','n','d'], ['b','i','o','l','o','g','y'], ['b','i','r','d'], ['b','i','r','t','h'], ['b','i','t','t','e','r'],
    ['b','l','a','c','k'], ['b','l','a','d','e'], ['b','l','a','m','e'], ['b','l','a','n','k','e','t'], ['b','l','a','s','t'],
    ['b','l','e','a','k'], ['b','l','e','s','s'], ['b','l','i','n','d'], ['b','l','o','o','d'], ['b','l','o','s','s','o','m'],
    ['b','l','o','u','s','e'], ['b','l','u','e'], ['b','l','u','r'], ['b','l','u','s','h'], ['b','o','a','r','d'],
    ['b','o','a','t'], ['b','o','d','y'], ['b','o','i','l'], ['b','o','m','b'], ['b','o','n','e'], ['b','o','n','u','s'],
    ['b','o','o','k'], ['b','o','o','s','t'], ['b','o','r','d','e','r'], ['b','o','r','i','n','g'], ['b','o','r','r','o','w'],
    ['b','o','s','s'], ['b','o','t','t','o','m'], ['b','o','u','n','c','e'], ['b','o','x'], ['b','o','y'],
    ['b','r','a','c','k','e','t'], ['b','r','a','i','n'], ['b','r','a','n','d'], ['b','r','a','s','s'], ['b','r','a','v','e'],
    ['b','r','e','a','d'], ['b','r','e','e','z','e'], ['b','r','i','c','k'], ['b','r','i','d','g','e'], ['b','r','i','e','f'],
    ['b','r','i','g','h','t'], ['b','r','i','n','g'], ['b','r','i','s','k'], ['b','r','o','c','c','o','l','i'],
    ['b','r','o','k','e','n'], ['b','r','o','n','z','e'], ['b','r','o','o','m'], ['b','r','o','t','h','e','r'],
    ['b','r','o','w','n'], ['b','r','u','s','h'], ['b','u','b','b','l','e'], ['b','u','d','d','y'], ['b','u','d','g','e','t'],
    ['b','u','f','f','a','l','o'], ['b','u','i','l','d'], ['b','u','l','b'], ['b','u','l','k'], ['b','u','l','l','e','t'],
    ['b','u','n','d','l','e'], ['b','u','n','k','e','r'], ['b','u','r','d','e','n'], ['b','u','r','g','e','r'],
    ['b','u','r','s','t'], ['b','u','s'], ['b','u','s','i','n','e','s','s'], ['b','u','s','y'], ['b','u','t','t','e','r'],
    ['b','u','y','e','r'], ['b','u','z','z'], ['c','a','b','b','a','g','e'], ['c','a','b','i','n'], ['c','a','b','l','e'],
    ['c','a','c','t','u','s'], ['c','a','g','e'], ['c','a','k','e'], ['c','a','l','l'], ['c','a','l','m'],
    ['c','a','m','e','r','a'], ['c','a','m','p'], ['c','a','n'], ['c','a','n','a','l'], ['c','a','n','c','e','l'],
    ['c','a','n','d','y'], ['c','a','n','n','o','n'], ['c','a','n','o','e'], ['c','a','n','v','a','s'],
    ['c','a','n','y','o','n'], ['c','a','p','a','b','l','e'], ['c','a','p','i','t','a','l'], ['c','a','p','t','a','i','n'],
    ['c','a','r'], ['c','a','r','b','o','n'], ['c','a','r','d'], ['c','a','r','g','o'], ['c','a','r','p','e','t'],
    ['c','a','r','r','y'], ['c','a','r','t'], ['c','a','s','e'], ['c','a','s','h'], ['c','a','s','i','n','o'],
    ['c','a','s','t','l','e'], ['c','a','s','u','a','l'], ['c','a','t'], ['c','a','t','a','l','o','g'], ['c','a','t','c','h'],
    ['c','a','t','e','g','o','r','y'], ['c','a','t','t','l','e'], ['c','a','u','g','h','t'], ['c','a','u','s','e'],
    ['c','a','u','t','i','o','n'], ['c','a','v','e'], ['c','e','i','l','i','n','g'], ['c','e','l','e','r','y'],
    ['c','e','m','e','n','t'], ['c','e','n','s','u','s'], ['c','e','n','t','u','r','y'], ['c','e','r','e','a','l'],
    ['c','e','r','t','a','i','n'], ['c','h','a','i','r'], ['c','h','a','l','k'], ['c','h','a','m','p','i','o','n'],
    ['c','h','a','n','g','e'], ['c','h','a','o','s'], ['c','h','a','p','t','e','r'], ['c','h','a','r','g','e'],
    ['c','h','a','s','e'], ['c','h','a','t'], ['c','h','e','a','p'], ['c','h','e','c','k'], ['c','h','e','e','s','e'],
    ['c','h','e','f'], ['c','h','e','r','r','y'], ['c','h','e','s','t'], ['c','h','i','c','k','e','n'], ['c','h','i','e','f'],
    ['c','h','i','l','d'], ['c','h','i','m','n','e','y'], ['c','h','o','i','c','e'], ['c','h','o','o','s','e'],
    ['c','h','r','o','n','i','c'], ['c','h','u','c','k','l','e'], ['c','h','u','n','k'], ['c','h','u','r','n'],
    ['c','i','g','a','r'], ['c','i','n','n','a','m','o','n'], ['c','i','r','c','l','e'], ['c','i','t','i','z','e','n'],
    ['c','i','t','y'], ['c','i','v','i','l'], ['c','l','a','i','m'], ['c','l','a','p'], ['c','l','a','r','i','f','y'],
    ['c','l','a','w'], ['c','l','a','y'], ['c','l','e','a','n'], ['c','l','e','r','k'], ['c','l','e','v','e','r'],
    ['c','l','i','c','k'], ['c','l','i','e','n','t'], ['c','l','i','f','f'], ['c','l','i','m','b'], ['c','l','i','n','i','c'],
    ['c','l','i','p'], ['c','l','o','c','k'], ['c','l','o','g'], ['c','l','o','s','e'], ['c','l','o','t','h'],
    ['c','l','o','u','d'], ['c','l','o','w','n'], ['c','l','u','b'], ['c','l','u','m','p'], ['c','l','u','s','t','e','r'],
    ['c','l','u','t','c','h'], ['c','o','a','c','h'], ['c','o','a','s','t'], ['c','o','c','o','n','u','t'], ['c','o','d','e'],
    ['c','o','f','f','e','e'], ['c','o','i','l'], ['c','o','i','n'], ['c','o','l','l','e','c','t'], ['c','o','l','o','r'],
    ['c','o','l','u','m','n'], ['c','o','m','b','i','n','e'], ['c','o','m','e'], ['c','o','m','f','o','r','t'],
    ['c','o','m','i','c'], ['c','o','m','m','o','n'], ['c','o','m','p','a','n','y'], ['c','o','n','c','e','r','t'],
    ['c','o','n','d','u','c','t'], ['c','o','n','f','i','r','m'], ['c','o','n','g','r','e','s','s'],
    ['c','o','n','n','e','c','t'], ['c','o','n','s','i','d','e','r'], ['c','o','n','t','r','o','l'],
    ['c','o','n','v','i','n','c','e'], ['c','o','o','k'], ['c','o','o','l'], ['c','o','p','p','e','r'], ['c','o','p','y'],
    ['c','o','r','a','l'], ['c','o','r','e'], ['c','o','r','n'], ['c','o','r','r','e','c','t'], ['c','o','s','t'],
    ['c','o','t','t','o','n'], ['c','o','u','c','h'], ['c','o','u','n','t','r','y'], ['c','o','u','p','l','e'],
    ['c','o','u','r','s','e'], ['c','o','u','s','i','n'], ['c','o','v','e','r'], ['c','o','y','o','t','e'],
    ['c','r','a','c','k'], ['c','r','a','d','l','e'], ['c','r','a','f','t'], ['c','r','a','m'], ['c','r','a','n','e'],
    ['c','r','a','s','h'], ['c','r','a','t','e','r'], ['c','r','a','w','l'], ['c','r','a','z','y'], ['c','r','e','a','m'],
    ['c','r','e','d','i','t'], ['c','r','e','e','k'], ['c','r','e','w'], ['c','r','i','c','k','e','t'], ['c','r','i','m','e'],
    ['c','r','i','s','p'], ['c','r','i','t','i','c'], ['c','r','o','p'], ['c','r','o','s','s'], ['c','r','o','u','c','h'],
    ['c','r','o','w','d'], ['c','r','u','c','i','a','l'], ['c','r','u','e','l'], ['c','r','u','i','s','e'],
    ['c','r','u','m','b','l','e'], ['c','r','u','n','c','h'], ['c','r','u','s','h'], ['c','r','y'],
    ['c','r','y','s','t','a','l'], ['c','u','b','e'], ['c','u','l','t','u','r','e'], ['c','u','p'],
    ['c','u','p','b','o','a','r','d'], ['c','u','r','i','o','u','s'], ['c','u','r','r','e','n','t'],
    ['c','u','r','t','a','i','n'], ['c','u','r','v','e'], ['c','u','s','h','i','o','n'], ['c','u','s','t','o','m'],
    ['c','u','t','e'], ['c','y','c','l','e'], ['d','a','d'], ['d','a','m','a','g','e'], ['d','a','m','p'],
    ['d','a','n','c','e'], ['d','a','n','g','e','r'], ['d','a','r','i','n','g'], ['d','a','s','h'],
    ['d','a','u','g','h','t','e','r'], ['d','a','w','n'], ['d','a','y'], ['d','e','a','l'], ['d','e','b','a','t','e'],
    ['d','e','b','r','i','s'], ['d','e','c','a','d','e'], ['d','e','c','e','m','b','e','r'], ['d','e','c','i','d','e'],
    ['d','e','c','l','i','n','e'], ['d','e','c','o','r','a','t','e'], ['d','e','c','r','e','a','s','e'], ['d','e','e','r'],
    ['d','e','f','e','n','s','e'], ['d','e','f','i','n','e'], ['d','e','f','y'], ['d','e','g','r','e','e'],
    ['d','e','l','a','y'], ['d','e','l','i','v','e','r'], ['d','e','m','a','n','d'], ['d','e','m','i','s','e'],
    ['d','e','n','i','a','l'], ['d','e','n','t','i','s','t'], ['d','e','n','y'], ['d','e','p','a','r','t'],
    ['d','e','p','e','n','d'], ['d','e','p','o','s','i','t'], ['d','e','p','t','h'], ['d','e','p','u','t','y'],
    ['d','e','r','i','v','e'], ['d','e','s','c','r','i','b','e'], ['d','e','s','e','r','t'], ['d','e','s','i','g','n'],
    ['d','e','s','k'], ['d','e','s','p','a','i','r'], ['d','e','s','t','r','o','y'], ['d','e','t','a','i','l'],
    ['d','e','t','e','c','t'], ['d','e','v','e','l','o','p'], ['d','e','v','i','c','e'], ['d','e','v','o','t','e'],
    ['d','i','a','g','r','a','m'], ['d','i','a','l'], ['d','i','a','m','o','n','d'], ['d','i','a','r','y'], ['d','i','c','e'],
    ['d','i','e','s','e','l'], ['d','i','e','t'], ['d','i','f','f','e','r'], ['d','i','g','i','t','a','l'],
    ['d','i','g','n','i','t','y'], ['d','i','l','e','m','m','a'], ['d','i','n','n','e','r'], ['d','i','n','o','s','a','u','r'],
    ['d','i','r','e','c','t'], ['d','i','r','t'], ['d','i','s','a','g','r','e','e'], ['d','i','s','c','o','v','e','r'],
    ['d','i','s','e','a','s','e'], ['d','i','s','h'], ['d','i','s','m','i','s','s'], ['d','i','s','o','r','d','e','r'],
    ['d','i','s','p','l','a','y'], ['d','i','s','t','a','n','c','e'], ['d','i','v','e','r','t'], ['d','i','v','i','d','e'],
    ['d','i','v','o','r','c','e'], ['d','i','z','z','y'], ['d','o','c','t','o','r'], ['d','o','c','u','m','e','n','t'],
    ['d','o','g'], ['d','o','l','l'], ['d','o','l','p','h','i','n'], ['d','o','m','a','i','n'], ['d','o','n','a','t','e'],
    ['d','o','n','k','e','y'], ['d','o','n','o','r'], ['d','o','o','r'], ['d','o','s','e'], ['d','o','u','b','l','e'],
    ['d','o','v','e'], ['d','r','a','f','t'], ['d','r','a','g','o','n'], ['d','r','a','m','a'], ['d','r','a','s','t','i','c'],
    ['d','r','a','w'], ['d','r','e','a','m'], ['d','r','e','s','s'], ['d','r','i','f','t'], ['d','r','i','l','l'],
    ['d','r','i','n','k'], ['d','r','i','p'], ['d','r','i','v','e'], ['d','r','o','p'], ['d','r','u','m'], ['d','r','y'],
    ['d','u','c','k'], ['d','u','m','b'], ['d','u','n','e'], ['d','u','r','i','n','g'], ['d','u','s','t'],
    ['d','u','t','c','h'], ['d','u','t','y'], ['d','w','a','r','f'], ['d','y','n','a','m','i','c'], ['e','a','g','e','r'],
    ['e','a','g','l','e'], ['e','a','r','l','y'], ['e','a','r','n'], ['e','a','r','t','h'], ['e','a','s','i','l','y'],
    ['e','a','s','t'], ['e','a','s','y'], ['e','c','h','o'], ['e','c','o','l','o','g','y'], ['e','c','o','n','o','m','y'],
    ['e','d','g','e'], ['e','d','i','t'], ['e','d','u','c','a','t','e'], ['e','f','f','o','r','t'], ['e','g','g'],
    ['e','i','g','h','t'], ['e','i','t','h','e','r'], ['e','l','b','o','w'], ['e','l','d','e','r'],
    ['e','l','e','c','t','r','i','c'], ['e','l','e','g','a','n','t'], ['e','l','e','m','e','n','t'],
    ['e','l','e','p','h','a','n','t'], ['e','l','e','v','a','t','o','r'], ['e','l','i','t','e'], ['e','l','s','e'],
    ['e','m','b','a','r','k'], ['e','m','b','o','d','y'], ['e','m','b','r','a','c','e'], ['e','m','e','r','g','e'],
    ['e','m','o','t','i','o','n'], ['e','m','p','l','o','y'], ['e','m','p','o','w','e','r'], ['e','m','p','t','y'],
    ['e','n','a','b','l','e'], ['e','n','a','c','t'], ['e','n','d'], ['e','n','d','l','e','s','s'],
    ['e','n','d','o','r','s','e'], ['e','n','e','m','y'], ['e','n','e','r','g','y'], ['e','n','f','o','r','c','e'],
    ['e','n','g','a','g','e'], ['e','n','g','i','n','e'], ['e','n','h','a','n','c','e'], ['e','n','j','o','y'],
    ['e','n','l','i','s','t'], ['e','n','o','u','g','h'], ['e','n','r','i','c','h'], ['e','n','r','o','l','l'],
    ['e','n','s','u','r','e'], ['e','n','t','e','r'], ['e','n','t','i','r','e'], ['e','n','t','r','y'],
    ['e','n','v','e','l','o','p','e'], ['e','p','i','s','o','d','e'], ['e','q','u','a','l'], ['e','q','u','i','p'],
    ['e','r','a'], ['e','r','a','s','e'], ['e','r','o','d','e'], ['e','r','o','s','i','o','n'], ['e','r','r','o','r'],
    ['e','r','u','p','t'], ['e','s','c','a','p','e'], ['e','s','s','a','y'], ['e','s','s','e','n','c','e'],
    ['e','s','t','a','t','e'], ['e','t','e','r','n','a','l'], ['e','t','h','i','c','s'], ['e','v','i','d','e','n','c','e'],
    ['e','v','i','l'], ['e','v','o','k','e'], ['e','v','o','l','v','e'], ['e','x','a','c','t'], ['e','x','a','m','p','l','e'],
    ['e','x','c','e','s','s'], ['e','x','c','h','a','n','g','e'], ['e','x','c','i','t','e'], ['e','x','c','l','u','d','e'],
    ['e','x','c','u','s','e'], ['e','x','e','c','u','t','e'], ['e','x','e','r','c','i','s','e'], ['e','x','h','a','u','s','t'],
    ['e','x','h','i','b','i','t'], ['e','x','i','l','e'], ['e','x','i','s','t'], ['e','x','i','t'], ['e','x','o','t','i','c'],
    ['e','x','p','a','n','d'], ['e','x','p','e','c','t'], ['e','x','p','i','r','e'], ['e','x','p','l','a','i','n'],
    ['e','x','p','o','s','e'], ['e','x','p','r','e','s','s'], ['e','x','t','e','n','d'], ['e','x','t','r','a'], ['e','y','e'],
    ['e','y','e','b','r','o','w'], ['f','a','b','r','i','c'], ['f','a','c','e'], ['f','a','c','u','l','t','y'],
    ['f','a','d','e'], ['f','a','i','n','t'], ['f','a','i','t','h'], ['f','a','l','l'], ['f','a','l','s','e'],
    ['f','a','m','e'], ['f','a','m','i','l','y'], ['f','a','m','o','u','s'], ['f','a','n'], ['f','a','n','c','y'],
    ['f','a','n','t','a','s','y'], ['f','a','r','m'], ['f','a','s','h','i','o','n'], ['f','a','t'], ['f','a','t','a','l'],
    ['f','a','t','h','e','r'], ['f','a','t','i','g','u','e'], ['f','a','u','l','t'], ['f','a','v','o','r','i','t','e'],
    ['f','e','a','t','u','r','e'], ['f','e','b','r','u','a','r','y'], ['f','e','d','e','r','a','l'], ['f','e','e'],
    ['f','e','e','d'], ['f','e','e','l'], ['f','e','m','a','l','e'], ['f','e','n','c','e'], ['f','e','s','t','i','v','a','l'],
    ['f','e','t','c','h'], ['f','e','v','e','r'], ['f','e','w'], ['f','i','b','e','r'], ['f','i','c','t','i','o','n'],
    ['f','i','e','l','d'], ['f','i','g','u','r','e'], ['f','i','l','e'], ['f','i','l','m'], ['f','i','l','t','e','r'],
    ['f','i','n','a','l'], ['f','i','n','d'], ['f','i','n','e'], ['f','i','n','g','e','r'], ['f','i','n','i','s','h'],
    ['f','i','r','e'], ['f','i','r','m'], ['f','i','r','s','t'], ['f','i','s','c','a','l'], ['f','i','s','h'], ['f','i','t'],
    ['f','i','t','n','e','s','s'], ['f','i','x'], ['f','l','a','g'], ['f','l','a','m','e'], ['f','l','a','s','h'],
    ['f','l','a','t'], ['f','l','a','v','o','r'], ['f','l','e','e'], ['f','l','i','g','h','t'], ['f','l','i','p'],
    ['f','l','o','a','t'], ['f','l','o','c','k'], ['f','l','o','o','r'], ['f','l','o','w','e','r'], ['f','l','u','i','d'],
    ['f','l','u','s','h'], ['f','l','y'], ['f','o','a','m'], ['f','o','c','u','s'], ['f','o','g'], ['f','o','i','l'],
    ['f','o','l','d'], ['f','o','l','l','o','w'], ['f','o','o','d'], ['f','o','o','t'], ['f','o','r','c','e'],
    ['f','o','r','e','s','t'], ['f','o','r','g','e','t'], ['f','o','r','k'], ['f','o','r','t','u','n','e'],
    ['f','o','r','u','m'], ['f','o','r','w','a','r','d'], ['f','o','s','s','i','l'], ['f','o','s','t','e','r'],
    ['f','o','u','n','d'], ['f','o','x'], ['f','r','a','g','i','l','e'], ['f','r','a','m','e'],
    ['f','r','e','q','u','e','n','t'], ['f','r','e','s','h'], ['f','r','i','e','n','d'], ['f','r','i','n','g','e'],
    ['f','r','o','g'], ['f','r','o','n','t'], ['f','r','o','s','t'], ['f','r','o','w','n'], ['f','r','o','z','e','n'],
    ['f','r','u','i','t'], ['f','u','e','l'], ['f','u','n'], ['f','u','n','n','y'], ['f','u','r','n','a','c','e'],
    ['f','u','r','y'], ['f','u','t','u','r','e'], ['g','a','d','g','e','t'], ['g','a','i','n'], ['g','a','l','a','x','y'],
    ['g','a','l','l','e','r','y'], ['g','a','m','e'], ['g','a','p'], ['g','a','r','a','g','e'], ['g','a','r','b','a','g','e'],
    ['g','a','r','d','e','n'], ['g','a','r','l','i','c'], ['g','a','r','m','e','n','t'], ['g','a','s'], ['g','a','s','p'],
    ['g','a','t','e'], ['g','a','t','h','e','r'], ['g','a','u','g','e'], ['g','a','z','e'], ['g','e','n','e','r','a','l'],
    ['g','e','n','i','u','s'], ['g','e','n','r','e'], ['g','e','n','t','l','e'], ['g','e','n','u','i','n','e'],
    ['g','e','s','t','u','r','e'], ['g','h','o','s','t'], ['g','i','a','n','t'], ['g','i','f','t'], ['g','i','g','g','l','e'],
    ['g','i','n','g','e','r'], ['g','i','r','a','f','f','e'], ['g','i','r','l'], ['g','i','v','e'], ['g','l','a','d'],
    ['g','l','a','n','c','e'], ['g','l','a','r','e'], ['g','l','a','s','s'], ['g','l','i','d','e'],
    ['g','l','i','m','p','s','e'], ['g','l','o','b','e'], ['g','l','o','o','m'], ['g','l','o','r','y'], ['g','l','o','v','e'],
    ['g','l','o','w'], ['g','l','u','e'], ['g','o','a','t'], ['g','o','d','d','e','s','s'], ['g','o','l','d'],
    ['g','o','o','d'], ['g','o','o','s','e'], ['g','o','r','i','l','l','a'], ['g','o','s','p','e','l'],
    ['g','o','s','s','i','p'], ['g','o','v','e','r','n'], ['g','o','w','n'], ['g','r','a','b'], ['g','r','a','c','e'],
    ['g','r','a','i','n'], ['g','r','a','n','t'], ['g','r','a','p','e'], ['g','r','a','s','s'], ['g','r','a','v','i','t','y'],
    ['g','r','e','a','t'], ['g','r','e','e','n'], ['g','r','i','d'], ['g','r','i','e','f'], ['g','r','i','t'],
    ['g','r','o','c','e','r','y'], ['g','r','o','u','p'], ['g','r','o','w'], ['g','r','u','n','t'], ['g','u','a','r','d'],
    ['g','u','e','s','s'], ['g','u','i','d','e'], ['g','u','i','l','t'], ['g','u','i','t','a','r'], ['g','u','n'],
    ['g','y','m'], ['h','a','b','i','t'], ['h','a','i','r'], ['h','a','l','f'], ['h','a','m','m','e','r'],
    ['h','a','m','s','t','e','r'], ['h','a','n','d'], ['h','a','p','p','y'], ['h','a','r','b','o','r'], ['h','a','r','d'],
    ['h','a','r','s','h'], ['h','a','r','v','e','s','t'], ['h','a','t'], ['h','a','v','e'], ['h','a','w','k'],
    ['h','a','z','a','r','d'], ['h','e','a','d'], ['h','e','a','l','t','h'], ['h','e','a','r','t'], ['h','e','a','v','y'],
    ['h','e','d','g','e','h','o','g'], ['h','e','i','g','h','t'], ['h','e','l','l','o'], ['h','e','l','m','e','t'],
    ['h','e','l','p'], ['h','e','n'], ['h','e','r','o'], ['h','i','d','d','e','n'], ['h','i','g','h'], ['h','i','l','l'],
    ['h','i','n','t'], ['h','i','p'], ['h','i','r','e'], ['h','i','s','t','o','r','y'], ['h','o','b','b','y'],
    ['h','o','c','k','e','y'], ['h','o','l','d'], ['h','o','l','e'], ['h','o','l','i','d','a','y'], ['h','o','l','l','o','w'],
    ['h','o','m','e'], ['h','o','n','e','y'], ['h','o','o','d'], ['h','o','p','e'], ['h','o','r','n'],
    ['h','o','r','r','o','r'], ['h','o','r','s','e'], ['h','o','s','p','i','t','a','l'], ['h','o','s','t'],
    ['h','o','t','e','l'], ['h','o','u','r'], ['h','o','v','e','r'], ['h','u','b'], ['h','u','g','e'], ['h','u','m','a','n'],
    ['h','u','m','b','l','e'], ['h','u','m','o','r'], ['h','u','n','d','r','e','d'], ['h','u','n','g','r','y'],
    ['h','u','n','t'], ['h','u','r','d','l','e'], ['h','u','r','r','y'], ['h','u','r','t'], ['h','u','s','b','a','n','d'],
    ['h','y','b','r','i','d'], ['i','c','e'], ['i','c','o','n'], ['i','d','e','a'], ['i','d','e','n','t','i','f','y'],
    ['i','d','l','e'], ['i','g','n','o','r','e'], ['i','l','l'], ['i','l','l','e','g','a','l'], ['i','l','l','n','e','s','s'],
    ['i','m','a','g','e'], ['i','m','i','t','a','t','e'], ['i','m','m','e','n','s','e'], ['i','m','m','u','n','e'],
    ['i','m','p','a','c','t'], ['i','m','p','o','s','e'], ['i','m','p','r','o','v','e'], ['i','m','p','u','l','s','e'],
    ['i','n','c','h'], ['i','n','c','l','u','d','e'], ['i','n','c','o','m','e'], ['i','n','c','r','e','a','s','e'],
    ['i','n','d','e','x'], ['i','n','d','i','c','a','t','e'], ['i','n','d','o','o','r'], ['i','n','d','u','s','t','r','y'],
    ['i','n','f','a','n','t'], ['i','n','f','l','i','c','t'], ['i','n','f','o','r','m'], ['i','n','h','a','l','e'],
    ['i','n','h','e','r','i','t'], ['i','n','i','t','i','a','l'], ['i','n','j','e','c','t'], ['i','n','j','u','r','y'],
    ['i','n','m','a','t','e'], ['i','n','n','e','r'], ['i','n','n','o','c','e','n','t'], ['i','n','p','u','t'],
    ['i','n','q','u','i','r','y'], ['i','n','s','a','n','e'], ['i','n','s','e','c','t'], ['i','n','s','i','d','e'],
    ['i','n','s','p','i','r','e'], ['i','n','s','t','a','l','l'], ['i','n','t','a','c','t'], ['i','n','t','e','r','e','s','t'],
    ['i','n','t','o'], ['i','n','v','e','s','t'], ['i','n','v','i','t','e'], ['i','n','v','o','l','v','e'], ['i','r','o','n'],
    ['i','s','l','a','n','d'], ['i','s','o','l','a','t','e'], ['i','s','s','u','e'], ['i','t','e','m'], ['i','v','o','r','y'],
    ['j','a','c','k','e','t'], ['j','a','g','u','a','r'], ['j','a','r'], ['j','a','z','z'], ['j','e','a','l','o','u','s'],
    ['j','e','a','n','s'], ['j','e','l','l','y'], ['j','e','w','e','l'], ['j','o','b'], ['j','o','i','n'], ['j','o','k','e'],
    ['j','o','u','r','n','e','y'], ['j','o','y'], ['j','u','d','g','e'], ['j','u','i','c','e'], ['j','u','m','p'],
    ['j','u','n','g','l','e'], ['j','u','n','i','o','r'], ['j','u','n','k'], ['j','u','s','t'],
    ['k','a','n','g','a','r','o','o'], ['k','e','e','n'], ['k','e','e','p'], ['k','e','t','c','h','u','p'], ['k','e','y'],
    ['k','i','c','k'], ['k','i','d'], ['k','i','d','n','e','y'], ['k','i','n','d'], ['k','i','n','g','d','o','m'],
    ['k','i','s','s'], ['k','i','t'], ['k','i','t','c','h','e','n'], ['k','i','t','e'], ['k','i','t','t','e','n'],
    ['k','i','w','i'], ['k','n','e','e'], ['k','n','i','f','e'], ['k','n','o','c','k'], ['k','n','o','w'], ['l','a','b'],
    ['l','a','b','e','l'], ['l','a','b','o','r'], ['l','a','d','d','e','r'], ['l','a','d','y'], ['l','a','k','e'],
    ['l','a','m','p'], ['l','a','n','g','u','a','g','e'], ['l','a','p','t','o','p'], ['l','a','r','g','e'],
    ['l','a','t','e','r'], ['l','a','t','i','n'], ['l','a','u','g','h'], ['l','a','u','n','d','r','y'], ['l','a','v','a'],
    ['l','a','w'], ['l','a','w','n'], ['l','a','w','s','u','i','t'], ['l','a','y','e','r'], ['l','a','z','y'],
    ['l','e','a','d','e','r'], ['l','e','a','f'], ['l','e','a','r','n'], ['l','e','a','v','e'], ['l','e','c','t','u','r','e'],
    ['l','e','f','t'], ['l','e','g'], ['l','e','g','a','l'], ['l','e','g','e','n','d'], ['l','e','i','s','u','r','e'],
    ['l','e','m','o','n'], ['l','e','n','d'], ['l','e','n','g','t','h'], ['l','e','n','s'], ['l','e','o','p','a','r','d'],
    ['l','e','s','s','o','n'], ['l','e','t','t','e','r'], ['l','e','v','e','l'], ['l','i','a','r'],
    ['l','i','b','e','r','t','y'], ['l','i','b','r','a','r','y'], ['l','i','c','e','n','s','e'], ['l','i','f','e'],
    ['l','i','f','t'], ['l','i','g','h','t'], ['l','i','k','e'], ['l','i','m','b'], ['l','i','m','i','t'], ['l','i','n','k'],
    ['l','i','o','n'], ['l','i','q','u','i','d'], ['l','i','s','t'], ['l','i','t','t','l','e'], ['l','i','v','e'],
    ['l','i','z','a','r','d'], ['l','o','a','d'], ['l','o','a','n'], ['l','o','b','s','t','e','r'], ['l','o','c','a','l'],
    ['l','o','c','k'], ['l','o','g','i','c'], ['l','o','n','e','l','y'], ['l','o','n','g'], ['l','o','o','p'],
    ['l','o','t','t','e','r','y'], ['l','o','u','d'], ['l','o','u','n','g','e'], ['l','o','v','e'], ['l','o','y','a','l'],
    ['l','u','c','k','y'], ['l','u','g','g','a','g','e'], ['l','u','m','b','e','r'], ['l','u','n','a','r'],
    ['l','u','n','c','h'], ['l','u','x','u','r','y'], ['l','y','r','i','c','s'], ['m','a','c','h','i','n','e'], ['m','a','d'],
    ['m','a','g','i','c'], ['m','a','g','n','e','t'], ['m','a','i','d'], ['m','a','i','l'], ['m','a','i','n'],
    ['m','a','j','o','r'], ['m','a','k','e'], ['m','a','m','m','a','l'], ['m','a','n'], ['m','a','n','a','g','e'],
    ['m','a','n','d','a','t','e'], ['m','a','n','g','o'], ['m','a','n','s','i','o','n'], ['m','a','n','u','a','l'],
    ['m','a','p','l','e'], ['m','a','r','b','l','e'], ['m','a','r','c','h'], ['m','a','r','g','i','n'],
    ['m','a','r','i','n','e'], ['m','a','r','k','e','t'], ['m','a','r','r','i','a','g','e'], ['m','a','s','k'],
    ['m','a','s','s'], ['m','a','s','t','e','r'], ['m','a','t','c','h'], ['m','a','t','e','r','i','a','l'], ['m','a','t','h'],
    ['m','a','t','r','i','x'], ['m','a','t','t','e','r'], ['m','a','x','i','m','u','m'], ['m','a','z','e'],
    ['m','e','a','d','o','w'], ['m','e','a','n'], ['m','e','a','s','u','r','e'], ['m','e','a','t'],
    ['m','e','c','h','a','n','i','c'], ['m','e','d','a','l'], ['m','e','d','i','a'], ['m','e','l','o','d','y'],
    ['m','e','l','t'], ['m','e','m','b','e','r'], ['m','e','m','o','r','y'], ['m','e','n','t','i','o','n'], ['m','e','n','u'],
    ['m','e','r','c','y'], ['m','e','r','g','e'], ['m','e','r','i','t'], ['m','e','r','r','y'], ['m','e','s','h'],
    ['m','e','s','s','a','g','e'], ['m','e','t','a','l'], ['m','e','t','h','o','d'], ['m','i','d','d','l','e'],
    ['m','i','d','n','i','g','h','t'], ['m','i','l','k'], ['m','i','l','l','i','o','n'], ['m','i','m','i','c'],
    ['m','i','n','d'], ['m','i','n','i','m','u','m'], ['m','i','n','o','r'], ['m','i','n','u','t','e'],
    ['m','i','r','a','c','l','e'], ['m','i','r','r','o','r'], ['m','i','s','e','r','y'], ['m','i','s','s'],
    ['m','i','s','t','a','k','e'], ['m','i','x'], ['m','i','x','e','d'], ['m','i','x','t','u','r','e'],
    ['m','o','b','i','l','e'], ['m','o','d','e','l'], ['m','o','d','i','f','y'], ['m','o','m'], ['m','o','m','e','n','t'],
    ['m','o','n','i','t','o','r'], ['m','o','n','k','e','y'], ['m','o','n','s','t','e','r'], ['m','o','n','t','h'],
    ['m','o','o','n'], ['m','o','r','a','l'], ['m','o','r','e'], ['m','o','r','n','i','n','g'],
    ['m','o','s','q','u','i','t','o'], ['m','o','t','h','e','r'], ['m','o','t','i','o','n'], ['m','o','t','o','r'],
    ['m','o','u','n','t','a','i','n'], ['m','o','u','s','e'], ['m','o','v','e'], ['m','o','v','i','e'], ['m','u','c','h'],
    ['m','u','f','f','i','n'], ['m','u','l','e'], ['m','u','l','t','i','p','l','y'], ['m','u','s','c','l','e'],
    ['m','u','s','e','u','m'], ['m','u','s','h','r','o','o','m'], ['m','u','s','i','c'], ['m','u','s','t'],
    ['m','u','t','u','a','l'], ['m','y','s','e','l','f'], ['m','y','s','t','e','r','y'], ['m','y','t','h'],
    ['n','a','i','v','e'], ['n','a','m','e'], ['n','a','p','k','i','n'], ['n','a','r','r','o','w'], ['n','a','s','t','y'],
    ['n','a','t','i','o','n'], ['n','a','t','u','r','e'], ['n','e','a','r'], ['n','e','c','k'], ['n','e','e','d'],
    ['n','e','g','a','t','i','v','e'], ['n','e','g','l','e','c','t'], ['n','e','i','t','h','e','r'], ['n','e','p','h','e','w'],
    ['n','e','r','v','e'], ['n','e','s','t'], ['n','e','t'], ['n','e','t','w','o','r','k'], ['n','e','u','t','r','a','l'],
    ['n','e','v','e','r'], ['n','e','w','s'], ['n','e','x','t'], ['n','i','c','e'], ['n','i','g','h','t'],
    ['n','o','b','l','e'], ['n','o','i','s','e'], ['n','o','m','i','n','e','e'], ['n','o','o','d','l','e'],
    ['n','o','r','m','a','l'], ['n','o','r','t','h'], ['n','o','s','e'], ['n','o','t','a','b','l','e'], ['n','o','t','e'],
    ['n','o','t','h','i','n','g'], ['n','o','t','i','c','e'], ['n','o','v','e','l'], ['n','o','w'],
    ['n','u','c','l','e','a','r'], ['n','u','m','b','e','r'], ['n','u','r','s','e'], ['n','u','t'], ['o','a','k'],
    ['o','b','e','y'], ['o','b','j','e','c','t'], ['o','b','l','i','g','e'], ['o','b','s','c','u','r','e'],
    ['o','b','s','e','r','v','e'], ['o','b','t','a','i','n'], ['o','b','v','i','o','u','s'], ['o','c','c','u','r'],
    ['o','c','e','a','n'], ['o','c','t','o','b','e','r'], ['o','d','o','r'], ['o','f','f'], ['o','f','f','e','r'],
    ['o','f','f','i','c','e'], ['o','f','t','e','n'], ['o','i','l'], ['o','k','a','y'], ['o','l','d'], ['o','l','i','v','e'],
    ['o','l','y','m','p','i','c'], ['o','m','i','t'], ['o','n','c','e'], ['o','n','e'], ['o','n','i','o','n'],
    ['o','n','l','i','n','e'], ['o','n','l','y'], ['o','p','e','n'], ['o','p','e','r','a'], ['o','p','i','n','i','o','n'],
    ['o','p','p','o','s','e'], ['o','p','t','i','o','n'], ['o','r','a','n','g','e'], ['o','r','b','i','t'],
    ['o','r','c','h','a','r','d'], ['o','r','d','e','r'], ['o','r','d','i','n','a','r','y'], ['o','r','g','a','n'],
    ['o','r','i','e','n','t'], ['o','r','i','g','i','n','a','l'], ['o','r','p','h','a','n'], ['o','s','t','r','i','c','h'],
    ['o','t','h','e','r'], ['o','u','t','d','o','o','r'], ['o','u','t','e','r'], ['o','u','t','p','u','t'],
    ['o','u','t','s','i','d','e'], ['o','v','a','l'], ['o','v','e','n'], ['o','v','e','r'], ['o','w','n'],
    ['o','w','n','e','r'], ['o','x','y','g','e','n'], ['o','y','s','t','e','r'], ['o','z','o','n','e'], ['p','a','c','t'],
    ['p','a','d','d','l','e'], ['p','a','g','e'], ['p','a','i','r'], ['p','a','l','a','c','e'], ['p','a','l','m'],
    ['p','a','n','d','a'], ['p','a','n','e','l'], ['p','a','n','i','c'], ['p','a','n','t','h','e','r'], ['p','a','p','e','r'],
    ['p','a','r','a','d','e'], ['p','a','r','e','n','t'], ['p','a','r','k'], ['p','a','r','r','o','t'], ['p','a','r','t','y'],
    ['p','a','s','s'], ['p','a','t','c','h'], ['p','a','t','h'], ['p','a','t','i','e','n','t'], ['p','a','t','r','o','l'],
    ['p','a','t','t','e','r','n'], ['p','a','u','s','e'], ['p','a','v','e'], ['p','a','y','m','e','n','t'],
    ['p','e','a','c','e'], ['p','e','a','n','u','t'], ['p','e','a','r'], ['p','e','a','s','a','n','t'],
    ['p','e','l','i','c','a','n'], ['p','e','n'], ['p','e','n','a','l','t','y'], ['p','e','n','c','i','l'],
    ['p','e','o','p','l','e'], ['p','e','p','p','e','r'], ['p','e','r','f','e','c','t'], ['p','e','r','m','i','t'],
    ['p','e','r','s','o','n'], ['p','e','t'], ['p','h','o','n','e'], ['p','h','o','t','o'], ['p','h','r','a','s','e'],
    ['p','h','y','s','i','c','a','l'], ['p','i','a','n','o'], ['p','i','c','n','i','c'], ['p','i','c','t','u','r','e'],
    ['p','i','e','c','e'], ['p','i','g'], ['p','i','g','e','o','n'], ['p','i','l','l'], ['p','i','l','o','t'],
    ['p','i','n','k'], ['p','i','o','n','e','e','r'], ['p','i','p','e'], ['p','i','s','t','o','l'], ['p','i','t','c','h'],
    ['p','i','z','z','a'], ['p','l','a','c','e'], ['p','l','a','n','e','t'], ['p','l','a','s','t','i','c'],
    ['p','l','a','t','e'], ['p','l','a','y'], ['p','l','e','a','s','e'], ['p','l','e','d','g','e'], ['p','l','u','c','k'],
    ['p','l','u','g'], ['p','l','u','n','g','e'], ['p','o','e','m'], ['p','o','e','t'], ['p','o','i','n','t'],
    ['p','o','l','a','r'], ['p','o','l','e'], ['p','o','l','i','c','e'], ['p','o','n','d'], ['p','o','n','y'],
    ['p','o','o','l'], ['p','o','p','u','l','a','r'], ['p','o','r','t','i','o','n'], ['p','o','s','i','t','i','o','n'],
    ['p','o','s','s','i','b','l','e'], ['p','o','s','t'], ['p','o','t','a','t','o'], ['p','o','t','t','e','r','y'],
    ['p','o','v','e','r','t','y'], ['p','o','w','d','e','r'], ['p','o','w','e','r'], ['p','r','a','c','t','i','c','e'],
    ['p','r','a','i','s','e'], ['p','r','e','d','i','c','t'], ['p','r','e','f','e','r'], ['p','r','e','p','a','r','e'],
    ['p','r','e','s','e','n','t'], ['p','r','e','t','t','y'], ['p','r','e','v','e','n','t'], ['p','r','i','c','e'],
    ['p','r','i','d','e'], ['p','r','i','m','a','r','y'], ['p','r','i','n','t'], ['p','r','i','o','r','i','t','y'],
    ['p','r','i','s','o','n'], ['p','r','i','v','a','t','e'], ['p','r','i','z','e'], ['p','r','o','b','l','e','m'],
    ['p','r','o','c','e','s','s'], ['p','r','o','d','u','c','e'], ['p','r','o','f','i','t'], ['p','r','o','g','r','a','m'],
    ['p','r','o','j','e','c','t'], ['p','r','o','m','o','t','e'], ['p','r','o','o','f'], ['p','r','o','p','e','r','t','y'],
    ['p','r','o','s','p','e','r'], ['p','r','o','t','e','c','t'], ['p','r','o','u','d'], ['p','r','o','v','i','d','e'],
    ['p','u','b','l','i','c'], ['p','u','d','d','i','n','g'], ['p','u','l','l'], ['p','u','l','p'], ['p','u','l','s','e'],
    ['p','u','m','p','k','i','n'], ['p','u','n','c','h'], ['p','u','p','i','l'], ['p','u','p','p','y'],
    ['p','u','r','c','h','a','s','e'], ['p','u','r','i','t','y'], ['p','u','r','p','o','s','e'], ['p','u','r','s','e'],
    ['p','u','s','h'], ['p','u','t'], ['p','u','z','z','l','e'], ['p','y','r','a','m','i','d'], ['q','u','a','l','i','t','y'],
    ['q','u','a','n','t','u','m'], ['q','u','a','r','t','e','r'], ['q','u','e','s','t','i','o','n'], ['q','u','i','c','k'],
    ['q','u','i','t'], ['q','u','i','z'], ['q','u','o','t','e'], ['r','a','b','b','i','t'], ['r','a','c','c','o','o','n'],
    ['r','a','c','e'], ['r','a','c','k'], ['r','a','d','a','r'], ['r','a','d','i','o'], ['r','a','i','l'], ['r','a','i','n'],
    ['r','a','i','s','e'], ['r','a','l','l','y'], ['r','a','m','p'], ['r','a','n','c','h'], ['r','a','n','d','o','m'],
    ['r','a','n','g','e'], ['r','a','p','i','d'], ['r','a','r','e'], ['r','a','t','e'], ['r','a','t','h','e','r'],
    ['r','a','v','e','n'], ['r','a','w'], ['r','a','z','o','r'], ['r','e','a','d','y'], ['r','e','a','l'],
    ['r','e','a','s','o','n'], ['r','e','b','e','l'], ['r','e','b','u','i','l','d'], ['r','e','c','a','l','l'],
    ['r','e','c','e','i','v','e'], ['r','e','c','i','p','e'], ['r','e','c','o','r','d'], ['r','e','c','y','c','l','e'],
    ['r','e','d','u','c','e'], ['r','e','f','l','e','c','t'], ['r','e','f','o','r','m'], ['r','e','f','u','s','e'],
    ['r','e','g','i','o','n'], ['r','e','g','r','e','t'], ['r','e','g','u','l','a','r'], ['r','e','j','e','c','t'],
    ['r','e','l','a','x'], ['r','e','l','e','a','s','e'], ['r','e','l','i','e','f'], ['r','e','l','y'],
    ['r','e','m','a','i','n'], ['r','e','m','e','m','b','e','r'], ['r','e','m','i','n','d'], ['r','e','m','o','v','e'],
    ['r','e','n','d','e','r'], ['r','e','n','e','w'], ['r','e','n','t'], ['r','e','o','p','e','n'], ['r','e','p','a','i','r'],
    ['r','e','p','e','a','t'], ['r','e','p','l','a','c','e'], ['r','e','p','o','r','t'], ['r','e','q','u','i','r','e'],
    ['r','e','s','c','u','e'], ['r','e','s','e','m','b','l','e'], ['r','e','s','i','s','t'], ['r','e','s','o','u','r','c','e'],
    ['r','e','s','p','o','n','s','e'], ['r','e','s','u','l','t'], ['r','e','t','i','r','e'], ['r','e','t','r','e','a','t'],
    ['r','e','t','u','r','n'], ['r','e','u','n','i','o','n'], ['r','e','v','e','a','l'], ['r','e','v','i','e','w'],
    ['r','e','w','a','r','d'], ['r','h','y','t','h','m'], ['r','i','b'], ['r','i','b','b','o','n'], ['r','i','c','e'],
    ['r','i','c','h'], ['r','i','d','e'], ['r','i','d','g','e'], ['r','i','f','l','e'], ['r','i','g','h','t'],
    ['r','i','g','i','d'], ['r','i','n','g'], ['r','i','o','t'], ['r','i','p','p','l','e'], ['r','i','s','k'],
    ['r','i','t','u','a','l'], ['r','i','v','a','l'], ['r','i','v','e','r'], ['r','o','a','d'], ['r','o','a','s','t'],
    ['r','o','b','o','t'], ['r','o','b','u','s','t'], ['r','o','c','k','e','t'], ['r','o','m','a','n','c','e'],
    ['r','o','o','f'], ['r','o','o','k','i','e'], ['r','o','o','m'], ['r','o','s','e'], ['r','o','t','a','t','e'],
    ['r','o','u','g','h'], ['r','o','u','n','d'], ['r','o','u','t','e'], ['r','o','y','a','l'], ['r','u','b','b','e','r'],
    ['r','u','d','e'], ['r','u','g'], ['r','u','l','e'], ['r','u','n'], ['r','u','n','w','a','y'], ['r','u','r','a','l'],
    ['s','a','d'], ['s','a','d','d','l','e'], ['s','a','d','n','e','s','s'], ['s','a','f','e'], ['s','a','i','l'],
    ['s','a','l','a','d'], ['s','a','l','m','o','n'], ['s','a','l','o','n'], ['s','a','l','t'], ['s','a','l','u','t','e'],
    ['s','a','m','e'], ['s','a','m','p','l','e'], ['s','a','n','d'], ['s','a','t','i','s','f','y'],
    ['s','a','t','o','s','h','i'], ['s','a','u','c','e'], ['s','a','u','s','a','g','e'], ['s','a','v','e'], ['s','a','y'],
    ['s','c','a','l','e'], ['s','c','a','n'], ['s','c','a','r','e'], ['s','c','a','t','t','e','r'], ['s','c','e','n','e'],
    ['s','c','h','e','m','e'], ['s','c','h','o','o','l'], ['s','c','i','e','n','c','e'], ['s','c','i','s','s','o','r','s'],
    ['s','c','o','r','p','i','o','n'], ['s','c','o','u','t'], ['s','c','r','a','p'], ['s','c','r','e','e','n'],
    ['s','c','r','i','p','t'], ['s','c','r','u','b'], ['s','e','a'], ['s','e','a','r','c','h'], ['s','e','a','s','o','n'],
    ['s','e','a','t'], ['s','e','c','o','n','d'], ['s','e','c','r','e','t'], ['s','e','c','t','i','o','n'],
    ['s','e','c','u','r','i','t','y'], ['s','e','e','d'], ['s','e','e','k'], ['s','e','g','m','e','n','t'],
    ['s','e','l','e','c','t'], ['s','e','l','l'], ['s','e','m','i','n','a','r'], ['s','e','n','i','o','r'],
    ['s','e','n','s','e'], ['s','e','n','t','e','n','c','e'], ['s','e','r','i','e','s'], ['s','e','r','v','i','c','e'],
    ['s','e','s','s','i','o','n'], ['s','e','t','t','l','e'], ['s','e','t','u','p'], ['s','e','v','e','n'],
    ['s','h','a','d','o','w'], ['s','h','a','f','t'], ['s','h','a','l','l','o','w'], ['s','h','a','r','e'], ['s','h','e','d'],
    ['s','h','e','l','l'], ['s','h','e','r','i','f','f'], ['s','h','i','e','l','d'], ['s','h','i','f','t'],
    ['s','h','i','n','e'], ['s','h','i','p'], ['s','h','i','v','e','r'], ['s','h','o','c','k'], ['s','h','o','e'],
    ['s','h','o','o','t'], ['s','h','o','p'], ['s','h','o','r','t'], ['s','h','o','u','l','d','e','r'], ['s','h','o','v','e'],
    ['s','h','r','i','m','p'], ['s','h','r','u','g'], ['s','h','u','f','f','l','e'], ['s','h','y'],
    ['s','i','b','l','i','n','g'], ['s','i','c','k'], ['s','i','d','e'], ['s','i','e','g','e'], ['s','i','g','h','t'],
    ['s','i','g','n'], ['s','i','l','e','n','t'], ['s','i','l','k'], ['s','i','l','l','y'], ['s','i','l','v','e','r'],
    ['s','i','m','i','l','a','r'], ['s','i','m','p','l','e'], ['s','i','n','c','e'], ['s','i','n','g'], ['s','i','r','e','n'],
    ['s','i','s','t','e','r'], ['s','i','t','u','a','t','e'], ['s','i','x'], ['s','i','z','e'], ['s','k','a','t','e'],
    ['s','k','e','t','c','h'], ['s','k','i'], ['s','k','i','l','l'], ['s','k','i','n'], ['s','k','i','r','t'],
    ['s','k','u','l','l'], ['s','l','a','b'], ['s','l','a','m'], ['s','l','e','e','p'], ['s','l','e','n','d','e','r'],
    ['s','l','i','c','e'], ['s','l','i','d','e'], ['s','l','i','g','h','t'], ['s','l','i','m'], ['s','l','o','g','a','n'],
    ['s','l','o','t'], ['s','l','o','w'], ['s','l','u','s','h'], ['s','m','a','l','l'], ['s','m','a','r','t'],
    ['s','m','i','l','e'], ['s','m','o','k','e'], ['s','m','o','o','t','h'], ['s','n','a','c','k'], ['s','n','a','k','e'],
    ['s','n','a','p'], ['s','n','i','f','f'], ['s','n','o','w'], ['s','o','a','p'], ['s','o','c','c','e','r'],
    ['s','o','c','i','a','l'], ['s','o','c','k'], ['s','o','d','a'], ['s','o','f','t'], ['s','o','l','a','r'],
    ['s','o','l','d','i','e','r'], ['s','o','l','i','d'], ['s','o','l','u','t','i','o','n'], ['s','o','l','v','e'],
    ['s','o','m','e','o','n','e'], ['s','o','n','g'], ['s','o','o','n'], ['s','o','r','r','y'], ['s','o','r','t'],
    ['s','o','u','l'], ['s','o','u','n','d'], ['s','o','u','p'], ['s','o','u','r','c','e'], ['s','o','u','t','h'],
    ['s','p','a','c','e'], ['s','p','a','r','e'], ['s','p','a','t','i','a','l'], ['s','p','a','w','n'], ['s','p','e','a','k'],
    ['s','p','e','c','i','a','l'], ['s','p','e','e','d'], ['s','p','e','l','l'], ['s','p','e','n','d'],
    ['s','p','h','e','r','e'], ['s','p','i','c','e'], ['s','p','i','d','e','r'], ['s','p','i','k','e'], ['s','p','i','n'],
    ['s','p','i','r','i','t'], ['s','p','l','i','t'], ['s','p','o','i','l'], ['s','p','o','n','s','o','r'],
    ['s','p','o','o','n'], ['s','p','o','r','t'], ['s','p','o','t'], ['s','p','r','a','y'], ['s','p','r','e','a','d'],
    ['s','p','r','i','n','g'], ['s','p','y'], ['s','q','u','a','r','e'], ['s','q','u','e','e','z','e'],
    ['s','q','u','i','r','r','e','l'], ['s','t','a','b','l','e'], ['s','t','a','d','i','u','m'], ['s','t','a','f','f'],
    ['s','t','a','g','e'], ['s','t','a','i','r','s'], ['s','t','a','m','p'], ['s','t','a','n','d'], ['s','t','a','r','t'],
    ['s','t','a','t','e'], ['s','t','a','y'], ['s','t','e','a','k'], ['s','t','e','e','l'], ['s','t','e','m'],
    ['s','t','e','p'], ['s','t','e','r','e','o'], ['s','t','i','c','k'], ['s','t','i','l','l'], ['s','t','i','n','g'],
    ['s','t','o','c','k'], ['s','t','o','m','a','c','h'], ['s','t','o','n','e'], ['s','t','o','o','l'], ['s','t','o','r','y'],
    ['s','t','o','v','e'], ['s','t','r','a','t','e','g','y'], ['s','t','r','e','e','t'], ['s','t','r','i','k','e'],
    ['s','t','r','o','n','g'], ['s','t','r','u','g','g','l','e'], ['s','t','u','d','e','n','t'], ['s','t','u','f','f'],
    ['s','t','u','m','b','l','e'], ['s','t','y','l','e'], ['s','u','b','j','e','c','t'], ['s','u','b','m','i','t'],
    ['s','u','b','w','a','y'], ['s','u','c','c','e','s','s'], ['s','u','c','h'], ['s','u','d','d','e','n'],
    ['s','u','f','f','e','r'], ['s','u','g','a','r'], ['s','u','g','g','e','s','t'], ['s','u','i','t'],
    ['s','u','m','m','e','r'], ['s','u','n'], ['s','u','n','n','y'], ['s','u','n','s','e','t'], ['s','u','p','e','r'],
    ['s','u','p','p','l','y'], ['s','u','p','r','e','m','e'], ['s','u','r','e'], ['s','u','r','f','a','c','e'],
    ['s','u','r','g','e'], ['s','u','r','p','r','i','s','e'], ['s','u','r','r','o','u','n','d'], ['s','u','r','v','e','y'],
    ['s','u','s','p','e','c','t'], ['s','u','s','t','a','i','n'], ['s','w','a','l','l','o','w'], ['s','w','a','m','p'],
    ['s','w','a','p'], ['s','w','a','r','m'], ['s','w','e','a','r'], ['s','w','e','e','t'], ['s','w','i','f','t'],
    ['s','w','i','m'], ['s','w','i','n','g'], ['s','w','i','t','c','h'], ['s','w','o','r','d'], ['s','y','m','b','o','l'],
    ['s','y','m','p','t','o','m'], ['s','y','r','u','p'], ['s','y','s','t','e','m'], ['t','a','b','l','e'],
    ['t','a','c','k','l','e'], ['t','a','g'], ['t','a','i','l'], ['t','a','l','e','n','t'], ['t','a','l','k'],
    ['t','a','n','k'], ['t','a','p','e'], ['t','a','r','g','e','t'], ['t','a','s','k'], ['t','a','s','t','e'],
    ['t','a','t','t','o','o'], ['t','a','x','i'], ['t','e','a','c','h'], ['t','e','a','m'], ['t','e','l','l'], ['t','e','n'],
    ['t','e','n','a','n','t'], ['t','e','n','n','i','s'], ['t','e','n','t'], ['t','e','r','m'], ['t','e','s','t'],
    ['t','e','x','t'], ['t','h','a','n','k'], ['t','h','a','t'], ['t','h','e','m','e'], ['t','h','e','n'],
    ['t','h','e','o','r','y'], ['t','h','e','r','e'], ['t','h','e','y'], ['t','h','i','n','g'], ['t','h','i','s'],
    ['t','h','o','u','g','h','t'], ['t','h','r','e','e'], ['t','h','r','i','v','e'], ['t','h','r','o','w'],
    ['t','h','u','m','b'], ['t','h','u','n','d','e','r'], ['t','i','c','k','e','t'], ['t','i','d','e'], ['t','i','g','e','r'],
    ['t','i','l','t'], ['t','i','m','b','e','r'], ['t','i','m','e'], ['t','i','n','y'], ['t','i','p'], ['t','i','r','e','d'],
    ['t','i','s','s','u','e'], ['t','i','t','l','e'], ['t','o','a','s','t'], ['t','o','b','a','c','c','o'],
    ['t','o','d','a','y'], ['t','o','d','d','l','e','r'], ['t','o','e'], ['t','o','g','e','t','h','e','r'],
    ['t','o','i','l','e','t'], ['t','o','k','e','n'], ['t','o','m','a','t','o'], ['t','o','m','o','r','r','o','w'],
    ['t','o','n','e'], ['t','o','n','g','u','e'], ['t','o','n','i','g','h','t'], ['t','o','o','l'], ['t','o','o','t','h'],
    ['t','o','p'], ['t','o','p','i','c'], ['t','o','p','p','l','e'], ['t','o','r','c','h'], ['t','o','r','n','a','d','o'],
    ['t','o','r','t','o','i','s','e'], ['t','o','s','s'], ['t','o','t','a','l'], ['t','o','u','r','i','s','t'],
    ['t','o','w','a','r','d'], ['t','o','w','e','r'], ['t','o','w','n'], ['t','o','y'], ['t','r','a','c','k'],
    ['t','r','a','d','e'], ['t','r','a','f','f','i','c'], ['t','r','a','g','i','c'], ['t','r','a','i','n'],
    ['t','r','a','n','s','f','e','r'], ['t','r','a','p'], ['t','r','a','s','h'], ['t','r','a','v','e','l'], ['t','r','a','y'],
    ['t','r','e','a','t'], ['t','r','e','e'], ['t','r','e','n','d'], ['t','r','i','a','l'], ['t','r','i','b','e'],
    ['t','r','i','c','k'], ['t','r','i','g','g','e','r'], ['t','r','i','m'], ['t','r','i','p'], ['t','r','o','p','h','y'],
    ['t','r','o','u','b','l','e'], ['t','r','u','c','k'], ['t','r','u','e'], ['t','r','u','l','y'],
    ['t','r','u','m','p','e','t'], ['t','r','u','s','t'], ['t','r','u','t','h'], ['t','r','y'], ['t','u','b','e'],
    ['t','u','i','t','i','o','n'], ['t','u','m','b','l','e'], ['t','u','n','a'], ['t','u','n','n','e','l'],
    ['t','u','r','k','e','y'], ['t','u','r','n'], ['t','u','r','t','l','e'], ['t','w','e','l','v','e'],
    ['t','w','e','n','t','y'], ['t','w','i','c','e'], ['t','w','i','n'], ['t','w','i','s','t'], ['t','w','o'],
    ['t','y','p','e'], ['t','y','p','i','c','a','l'], ['u','g','l','y'], ['u','m','b','r','e','l','l','a'],
    ['u','n','a','b','l','e'], ['u','n','a','w','a','r','e'], ['u','n','c','l','e'], ['u','n','c','o','v','e','r'],
    ['u','n','d','e','r'], ['u','n','d','o'], ['u','n','f','a','i','r'], ['u','n','f','o','l','d'],
    ['u','n','h','a','p','p','y'], ['u','n','i','f','o','r','m'], ['u','n','i','q','u','e'], ['u','n','i','t'],
    ['u','n','i','v','e','r','s','e'], ['u','n','k','n','o','w','n'], ['u','n','l','o','c','k'], ['u','n','t','i','l'],
    ['u','n','u','s','u','a','l'], ['u','n','v','e','i','l'], ['u','p','d','a','t','e'], ['u','p','g','r','a','d','e'],
    ['u','p','h','o','l','d'], ['u','p','o','n'], ['u','p','p','e','r'], ['u','p','s','e','t'], ['u','r','b','a','n'],
    ['u','r','g','e'], ['u','s','a','g','e'], ['u','s','e'], ['u','s','e','d'], ['u','s','e','f','u','l'],
    ['u','s','e','l','e','s','s'], ['u','s','u','a','l'], ['u','t','i','l','i','t','y'], ['v','a','c','a','n','t'],
    ['v','a','c','u','u','m'], ['v','a','g','u','e'], ['v','a','l','i','d'], ['v','a','l','l','e','y'], ['v','a','l','v','e'],
    ['v','a','n'], ['v','a','n','i','s','h'], ['v','a','p','o','r'], ['v','a','r','i','o','u','s'], ['v','a','s','t'],
    ['v','a','u','l','t'], ['v','e','h','i','c','l','e'], ['v','e','l','v','e','t'], ['v','e','n','d','o','r'],
    ['v','e','n','t','u','r','e'], ['v','e','n','u','e'], ['v','e','r','b'], ['v','e','r','i','f','y'],
    ['v','e','r','s','i','o','n'], ['v','e','r','y'], ['v','e','s','s','e','l'], ['v','e','t','e','r','a','n'],
    ['v','i','a','b','l','e'], ['v','i','b','r','a','n','t'], ['v','i','c','i','o','u','s'], ['v','i','c','t','o','r','y'],
    ['v','i','d','e','o'], ['v','i','e','w'], ['v','i','l','l','a','g','e'], ['v','i','n','t','a','g','e'],
    ['v','i','o','l','i','n'], ['v','i','r','t','u','a','l'], ['v','i','r','u','s'], ['v','i','s','a'], ['v','i','s','i','t'],
    ['v','i','s','u','a','l'], ['v','i','t','a','l'], ['v','i','v','i','d'], ['v','o','c','a','l'], ['v','o','i','c','e'],
    ['v','o','i','d'], ['v','o','l','c','a','n','o'], ['v','o','l','u','m','e'], ['v','o','t','e'], ['v','o','y','a','g','e'],
    ['w','a','g','e'], ['w','a','g','o','n'], ['w','a','i','t'], ['w','a','l','k'], ['w','a','l','l'],
    ['w','a','l','n','u','t'], ['w','a','n','t'], ['w','a','r','f','a','r','e'], ['w','a','r','m'],
    ['w','a','r','r','i','o','r'], ['w','a','s','h'], ['w','a','s','p'], ['w','a','s','t','e'], ['w','a','t','e','r'],
    ['w','a','v','e'], ['w','a','y'], ['w','e','a','l','t','h'], ['w','e','a','p','o','n'], ['w','e','a','r'],
    ['w','e','a','s','e','l'], ['w','e','a','t','h','e','r'], ['w','e','b'], ['w','e','d','d','i','n','g'],
    ['w','e','e','k','e','n','d'], ['w','e','i','r','d'], ['w','e','l','c','o','m','e'], ['w','e','s','t'], ['w','e','t'],
    ['w','h','a','l','e'], ['w','h','a','t'], ['w','h','e','a','t'], ['w','h','e','e','l'], ['w','h','e','n'],
    ['w','h','e','r','e'], ['w','h','i','p'], ['w','h','i','s','p','e','r'], ['w','i','d','e'], ['w','i','d','t','h'],
    ['w','i','f','e'], ['w','i','l','d'], ['w','i','l','l'], ['w','i','n'], ['w','i','n','d','o','w'], ['w','i','n','e'],
    ['w','i','n','g'], ['w','i','n','k'], ['w','i','n','n','e','r'], ['w','i','n','t','e','r'], ['w','i','r','e'],
    ['w','i','s','d','o','m'], ['w','i','s','e'], ['w','i','s','h'], ['w','i','t','n','e','s','s'], ['w','o','l','f'],
    ['w','o','m','a','n'], ['w','o','n','d','e','r'], ['w','o','o','d'], ['w','o','o','l'], ['w','o','r','d'],
    ['w','o','r','k'], ['w','o','r','l','d'], ['w','o','r','r','y'], ['w','o','r','t','h'], ['w','r','a','p'],
    ['w','r','e','c','k'], ['w','r','e','s','t','l','e'], ['w','r','i','s','t'], ['w','r','i','t','e'], ['w','r','o','n','g'],
    ['y','a','r','d'], ['y','e','a','r'], ['y','e','l','l','o','w'], ['y','o','u'], ['y','o','u','n','g'],
    ['y','o','u','t','h'], ['z','e','b','r','a'], ['z','e','r','o'], ['z','o','n','e'], ['z','o','o']]

def wordlist : List (List UInt8) := englishWords.map fun word => word.map fun c => UInt8.ofNat c.toNat

theorem wordlist_length : wordlist.length = 2048 := by decide +kernel

theorem wordlist_letters {word : List UInt8} (h : word ∈ wordlist) :
    0 < word.length ∧ word.length ≤ 8 ∧ ∀ c ∈ word, 97 ≤ c ∧ c ≤ 122 := by
  have hall : (wordlist.all fun word => Nat.ble 1 word.length && Nat.ble word.length 8 &&
      word.all fun c => Nat.ble 97 c.toNat && Nat.ble c.toNat 122) = true := by decide +kernel
  have hword := List.all_eq_true.mp hall word h
  rw [Bool.and_eq_true, Bool.and_eq_true, Nat.ble_eq, Nat.ble_eq, List.all_eq_true] at hword
  refine ⟨hword.1.1, hword.1.2, ?_⟩
  intro c hc
  have hletter := hword.2 c hc
  rw [Bool.and_eq_true, Nat.ble_eq, Nat.ble_eq] at hletter
  exact ⟨UInt8.le_iff_toNat_le.mpr hletter.1, UInt8.le_iff_toNat_le.mpr hletter.2⟩

def orderKey (word : List UInt8) : ℕ := BigEndian.ofBytes (word ++ List.replicate (8 - word.length) 0)

theorem isChain_of_zip {xs : List ℕ} (h : ∀ p ∈ xs.zip xs.tail, p.1 < p.2) : xs.IsChain (· < ·) := by
  induction xs with
  | nil => exact .nil
  | cons x xs ih =>
    cases xs with
    | nil => exact .singleton x
    | cons y ys =>
      apply List.IsChain.cons_cons
      · exact h (x, y) List.mem_cons_self
      · apply ih
        intro p hp
        exact h p (List.mem_cons_of_mem _ hp)

theorem wordlist_nodup : wordlist.Nodup := by
  have hall : (((wordlist.map orderKey).zip (wordlist.map orderKey).tail).all fun p => Nat.blt p.1 p.2) = true := by decide +kernel
  have hchain : (wordlist.map orderKey).IsChain (· < ·) := by
    apply isChain_of_zip
    intro p hp
    exact Nat.blt_eq.mp (List.all_eq_true.mp hall p hp)
  apply List.Nodup.of_map orderKey
  apply (List.isChain_iff_pairwise.mp hchain).imp
  intro a b hab
  exact Nat.ne_of_lt hab

end TronlinkCore.TrezorCrypto
