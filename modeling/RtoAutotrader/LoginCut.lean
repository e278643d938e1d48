import RtoAutotrader.Session

namespace RtoAutotrader

end RtoAutotrader
