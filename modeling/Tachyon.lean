import Tachyon.Base.Containers
import Tachyon.Base.Buffer
import Tachyon.Base.Parallelize
import Tachyon.Crypto.PolynomialOpenings
import Tachyon.Crypto.Grouping
import Tachyon.Crypto.GroupingSimulation
import Tachyon.Crypto.GroupingOrder
import Tachyon.Math.DensePoly
import Tachyon.Math.LagrangeInterpolation
import Tachyon.Crypto.Quotient
import Tachyon.Crypto.QuotientSoundness
import Tachyon.Zk.Lookup.Prover
import Tachyon.Zk.Lookup.Commit
import Tachyon.Zk.Lookup.Pipeline
import Tachyon.Zk.Lookup.GrandProduct
import Tachyon.Zk.Lookup.Blinding
import Tachyon.Zk.Lookup.OpeningGroups
import Tachyon.Circom.R1CS
import Tachyon.Circom.R1CSRoundTrip
import Tachyon.Circom.R1CSPartialRead
import Tachyon.Circom.R1CSDecode
